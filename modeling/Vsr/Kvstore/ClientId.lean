import Mathlib.Algebra.Group.Nat.Defs
import Mathlib.Data.List.Nodup
import Mathlib.Data.List.Range

/-!
# The client ids of a node

Each connection a kvstore node accepts is a client, with an id packed from the
node's id, its incarnation and the connections accepted before.
-/

set_option autoImplicit false

namespace Vsr.Kvstore

/-- The id of a node's `next` connection in its `incarnation`: the node in the top
byte, the incarnation in the next 32 bits, the connection in the low 24. -/
def clientId (nodeId incarnation next : UInt64) : UInt64 :=
  (nodeId <<< 56) ||| ((incarnation &&& 0xFFFFFFFF) <<< 24) ||| (next &&& 0xFFFFFF)

def nodeOf (clientId : UInt64) : UInt64 := clientId >>> 56

/-- Three numbers side by side, each in bits of its own. -/
theorem or_packed {a : Nat} (b c : Nat) (small : a < 256) :
    (a * 2 ^ 56 % 2 ^ 64 ||| b % 2 ^ 32 * 2 ^ 24 % 2 ^ 64) ||| c % 2 ^ 24 =
      a * 2 ^ 56 + (b % 2 ^ 32 * 2 ^ 24 + c % 2 ^ 24) := by
  have low := Nat.two_pow_add_eq_or_of_lt (i := 24) (b := c % 2 ^ 24)
    (Nat.mod_lt _ (Nat.two_pow_pos _)) (b % 2 ^ 32)
  have below : 2 ^ 24 * (b % 2 ^ 32) + c % 2 ^ 24 < 2 ^ 56 := by omega
  have whole := Nat.two_pow_add_eq_or_of_lt below a
  have top : a * 2 ^ 56 % 2 ^ 64 = 2 ^ 56 * a := by omega
  have inside : b % 2 ^ 32 * 2 ^ 24 % 2 ^ 64 = 2 ^ 24 * (b % 2 ^ 32) := by
    rw [Nat.mul_comm (b % 2 ^ 32) (2 ^ 24)]
    exact Nat.mod_eq_of_lt (by omega)
  rewrite [top, inside, Nat.or_assoc, ← low, ← whole]
  omega

theorem clientId_toNat {nodeId incarnation next : UInt64} (node : nodeId.toNat < 256) :
    (clientId nodeId incarnation next).toNat =
      nodeId.toNat * 2 ^ 56 + (incarnation.toNat % 2 ^ 32 * 2 ^ 24 + next.toNat % 2 ^ 24) := by
  have masked : incarnation.toNat &&& 0xFFFFFFFF = incarnation.toNat % 2 ^ 32 :=
    Nat.and_two_pow_sub_one_eq_mod _ 32
  have counted : next.toNat &&& 0xFFFFFF = next.toNat % 2 ^ 24 :=
    Nat.and_two_pow_sub_one_eq_mod _ 24
  rw [← or_packed _ _ node, ← masked, ← counted, ← Nat.shiftLeft_eq, ← Nat.shiftLeft_eq]
  unfold clientId
  rw [UInt64.toNat_or, UInt64.toNat_or, UInt64.toNat_shiftLeft, UInt64.toNat_shiftLeft,
    UInt64.toNat_and, UInt64.toNat_and]
  rfl

theorem nodeOf_clientId {nodeId incarnation next : UInt64} (node : nodeId.toNat < 256) :
    nodeOf (clientId nodeId incarnation next) = nodeId := by
  have shifts : ∀ a b c : Nat,
      (a * 2 ^ 56 + (b % 2 ^ 32 * 2 ^ 24 + c % 2 ^ 24)) / 2 ^ 56 = a := by
    intro a b c
    omega
  apply UInt64.toNat_inj.mp
  unfold nodeOf
  rw [UInt64.toNat_shiftRight, clientId_toNat node, Nat.shiftRight_eq_div_pow]
  exact shifts _ _ _

/-- Ids of the same node and incarnation meet where the low 24 bits of the
connections do. -/
theorem clientId_inj {nodeId incarnation next nodeId' incarnation' next' : UInt64}
    (node : nodeId.toNat < 256) (node' : nodeId'.toNat < 256) (run : incarnation.toNat < 2 ^ 32)
    (run' : incarnation'.toNat < 2 ^ 32) :
    clientId nodeId incarnation next = clientId nodeId' incarnation' next' ↔
      nodeId = nodeId' ∧ incarnation = incarnation' ∧
        next.toNat % 2 ^ 24 = next'.toNat % 2 ^ 24 := by
  have packs : ∀ {a b c a' b' c' : Nat}, b < 2 ^ 32 → b' < 2 ^ 32 →
      (a * 2 ^ 56 + (b % 2 ^ 32 * 2 ^ 24 + c % 2 ^ 24) =
        a' * 2 ^ 56 + (b' % 2 ^ 32 * 2 ^ 24 + c' % 2 ^ 24) ↔
        a = a' ∧ b = b' ∧ c % 2 ^ 24 = c' % 2 ^ 24) := by
    intro a b c a' b' c' small small'
    omega
  rw [← UInt64.toNat_inj, clientId_toNat node, clientId_toNat node', packs run run',
    UInt64.toNat_inj, UInt64.toNat_inj]

/-- One run of a node, and how many connections it accepted. -/
structure NodeRun where
  nodeId : UInt64
  incarnation : UInt64
  accepted : Nat

/-- The ids `run_client_acceptor` gives the connections of a run, in order. -/
def runClientAcceptor (run : NodeRun) : List UInt64 :=
  (List.range run.accepted).map fun next =>
    clientId run.nodeId run.incarnation (UInt64.ofNat next)

/-- The runs of every node of a cluster: each run of a node has a later incarnation
than those before it. -/
structure NodeRuns where
  runs : List NodeRun
  nodes : ∀ run ∈ runs, run.nodeId.toNat < 256
  incarnations : ∀ run ∈ runs, run.incarnation.toNat < 2 ^ 32
  increasing : runs.Pairwise fun before after =>
    before.nodeId = after.nodeId → before.incarnation < after.incarnation

namespace NodeRuns

/-- The ids of every connection ever accepted. -/
def ids (history : NodeRuns) : List UInt64 := history.runs.flatMap runClientAcceptor

/-- Within a run ids differ as long as its connections fit their 24 bits. -/
theorem runClientAcceptor_nodup {run : NodeRun} (node : run.nodeId.toNat < 256)
    (incarnation : run.incarnation.toNat < 2 ^ 32) :
    (runClientAcceptor run).Nodup ↔ run.accepted ≤ 2 ^ 24 := by
  have same : ∀ next next' : Nat, clientId run.nodeId run.incarnation (UInt64.ofNat next) =
      clientId run.nodeId run.incarnation (UInt64.ofNat next') ↔
        next % 2 ^ 64 % 2 ^ 24 = next' % 2 ^ 64 % 2 ^ 24 := by
    intro next next'
    rw [clientId_inj node node incarnation incarnation, UInt64.toNat_ofNat', UInt64.toNat_ofNat']
    exact ⟨fun h => h.2.2, fun h => ⟨rfl, rfl, h⟩⟩
  constructor
  · intro distinct
    by_contra more
    have first : 0 ∈ List.range run.accepted := List.mem_range.mpr (by omega)
    have wraps : 2 ^ 24 ∈ List.range run.accepted := List.mem_range.mpr (by omega)
    have meets := List.inj_on_of_nodup_map distinct first wraps ((same _ _).mpr rfl)
    exact absurd meets (by decide)
  · intro few
    refine List.Nodup.map_on (fun next isNext next' isNext' meets => ?_) List.nodup_range
    have below := List.mem_range.mp isNext
    have below' := List.mem_range.mp isNext'
    have meets := (same _ _).mp meets
    omega

/-- Two runs give no id in common. -/
theorem runs_disjoint (history : NodeRuns) :
    history.runs.Pairwise fun before after =>
      List.Disjoint (runClientAcceptor before) (runClientAcceptor after) := by
  refine history.increasing.imp_of_mem fun {before after} isBefore isAfter later id mem mem' => ?_
  obtain ⟨next, _, rfl⟩ := List.mem_map.mp mem
  obtain ⟨next', _, meets⟩ := List.mem_map.mp mem'
  obtain ⟨sameNode, sameRun, _⟩ := (clientId_inj (history.nodes _ isAfter)
    (history.nodes _ isBefore) (history.incarnations _ isAfter)
    (history.incarnations _ isBefore)).mp meets
  have := later sameNode.symm
  rw [sameRun] at this
  exact UInt64.lt_irrefl _ this

/-- Every connection gets an id of its own, which names the node that accepted it,
exactly as long as no run accepts more than 2^24 connections. -/
theorem ids_distinct (history : NodeRuns) :
    (history.ids.Nodup ∧ ∀ run ∈ history.runs, ∀ id ∈ runClientAcceptor run,
      nodeOf id = run.nodeId) ↔ ∀ run ∈ history.runs, run.accepted ≤ 2 ^ 24 := by
  have within : ∀ run ∈ history.runs, (runClientAcceptor run).Nodup ↔ run.accepted ≤ 2 ^ 24 :=
    fun run mem => runClientAcceptor_nodup (history.nodes run mem) (history.incarnations run mem)
  constructor
  · rintro ⟨distinct, _⟩ run mem
    exact (within run mem).mp ((List.nodup_flatMap.mp distinct).1 run mem)
  · intro few
    refine ⟨List.nodup_flatMap.mpr ⟨fun run mem => (within run mem).mpr (few run mem), ?_⟩, ?_⟩
    · exact history.runs_disjoint
    · intro run mem id isId
      obtain ⟨next, _, rfl⟩ := List.mem_map.mp isId
      exact nodeOf_clientId (history.nodes run mem)

/-- A run of node 0 that has accepted 2^24 connections and one more. -/
def wrapped : NodeRuns where
  runs := [⟨0, 1, 2 ^ 24 + 1⟩]
  nodes := by simp
  incarnations := by simp
  increasing := List.pairwise_singleton _ _

/-- The last connection has the id of the first. -/
theorem ids_wrapped : ¬wrapped.ids.Nodup := by
  intro distinct
  have one := (List.nodup_flatMap.mp distinct).1 ⟨0, 1, 2 ^ 24 + 1⟩ List.mem_cons_self
  have few := (runClientAcceptor_nodup (wrapped.nodes _ List.mem_cons_self)
    (wrapped.incarnations _ List.mem_cons_self)).mp one
  exact absurd few (by decide)

end NodeRuns

end Vsr.Kvstore
