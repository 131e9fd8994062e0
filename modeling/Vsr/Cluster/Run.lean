import Vsr.Cluster.Crash

/-!
# What holds of a cluster holds along its runs

A cluster starts with every replica in view 0 and nothing in its log.  Each step
of one of its nodes keeps `ClusterOk`, as long as no crash discards what was
drained.
-/

set_option autoImplicit false

namespace Vsr

open Consensus (World)

/-! ## The start -/

section Start
variable {Op Query Chunk : Type} {config : Config}

/-- The picture of a cluster in which nothing has happened: view 0 has started. -/
def opening : LogWorld Op where
  view _ := 0
  votes _ _ := 0
  led _ := []
  base v := if v = 0 then some [] else none
  decided := []
  marks := ∅

theorem opening_valid : (opening : LogWorld Op).Valid config.quorums where
  complete x b isBase y before := by
    by_cases first : x = 0
    · omega
    · simp [opening, first] at isBase
  grows x b isBase := by
    by_cases first : x = 0
    · have : b = [] := by simpa [opening, first, eq_comm] using isBase
      exact this ▸ List.nil_prefix
    · simp [opening, first] at isBase
  unstarted _ _ := rfl
  votes_le _ _ := Nat.zero_le _
  ahead _ _ _ := rfl
  marked _ _ mem := mem.elim
  known := .inl rfl
  reached x pos started := by
    have other : x ≠ 0 := by omega
    simp [opening, other] at started

/-- A replica that was just made. -/
structure Newborn (config : Config) (R : Nat) (p : Peer Op) : Prop where
  config_eq : p.config = config
  selfId_eq : p.selfId = R
  status : p.status = .normal
  views : p.viewNumber = 0 ∧ p.lastNormalView = 0
  counters : p.commitNumber = 0 ∧ p.applied = 0 ∧ p.logStart = 0
  empty : p.log = []
  acked : p.acked.length = config.replicas.length ∧ ∀ k ∈ p.acked, k = 0
  reports : p.doViewChangeFrom = ∅
  fetch : p.fetch = none
  serving : p.serving = none

theorem speakerOk_newborn {R : Nat} {p : Peer Op} (newborn : Newborn config R p)
    (began : Nat → Nat → LogWorld Op) (net : Set (Nat × Message Op Query Chunk)) :
    SpeakerOk config opening began net R ⟨p, ∅⟩ := by
  obtain ⟨isConfig, isId, status, ⟨view, lastNormal⟩, ⟨commit, applied, start⟩, empty, ⟨acked, zero⟩,
    reports, fetch, serving⟩ := newborn
  have whole : p.whole (opening : LogWorld Op).decided = [] := by
    simp [Standing.whole, opening, empty]
  have asleep : p.status ≠ .recovering := by simp [status]
  have held : HeldIn (opening : LogWorld Op) 0 [] :=
    ⟨[], by simp [opening], List.prefix_rfl, List.nil_prefix⟩
  exact
    { config_eq := isConfig
      selfId_eq := isId
      log :=
        { start := by dsimp only; omega
          applied := by dsimp only; omega
          committed := by dsimp only; omega
          reached := by dsimp only; omega
          agrees := by dsimp only; simp [commit]
          known := fun _ => .inl commit }
      view :=
        { here := fun _ => view.symm
          lastNormal := by dsimp only; omega
          current := fun _ => lastNormal.trans view.symm
          changing := fun changing => by cases status.symm.trans changing
          safe := fun _ => by
            dsimp only
            rw [whole, lastNormal]
            exact ⟨by simp [opening], fun x before => by omega,
              fun k within => by simp [opening] at within, fun _ _ => rfl⟩
          member := fun _ => by
            dsimp only
            rw [whole, view]
            exact ⟨held, rfl⟩
          leads := fun _ _ => by
            dsimp only
            rw [whole]
            rfl
          follows := fun transfer => by cases status.symm.trans transfer
          unstarted := fun v _ ahead => by
            have other : v ≠ 0 := by
              rcases ahead with later | ⟨_, changing⟩
              · have : 0 < v := later
                omega
              · cases status.symm.trans changing
            simp [opening, other] }
      acks :=
        { each := acked
          backed := fun _ _ S k isAcked pos => by
            have := zero k (List.mem_of_getElem? isAcked)
            omega }
      change :=
        { collected := fun S report found => by
            rw [show Peer.doViewChangeFrom _ = ∅ from reports] at found
            simp at found
          asks := fun _ _ changing => by cases status.symm.trans changing }
      fetch :=
        { newState := fun f _ _ _ isFetch => by cases fetch.symm.trans isFetch
          recovery := fun f _ _ isFetch => by cases fetch.symm.trans isFetch }
      recovery :=
        { empty := fun recovering => absurd recovering asleep
          began := fun recovering => absurd recovering asleep
          responses := fun recovering => absurd recovering asleep }
      serving := fun _ isServing => by cases serving.symm.trans isServing
      said :=
        { truthful := fun _ mem => mem.elim
          authored := fun _ mem => mem.elim
          stamped := fun _ mem => mem.elim
          spoken := fun recovering => absurd recovering asleep
          reported := fun _ _ _ _ mem => mem.elim } }

end Start

section Node
variable {SM : Type} [StateMachine SM]

theorem Replica.new_newborn {config : Config} {R : Nat} {machine : SM} {r : Replica SM}
    (run : Replica.new R config machine = some r) :
    3 ≤ config.replicas.length ∧ Newborn config R r.peer ∧ r.queued = [] ∧ r.replies = [] := by
  obtain ⟨several, rfl⟩ := Replica.new_eq run
  refine ⟨several, ⟨rfl, rfl, rfl, ⟨rfl, rfl⟩, ⟨rfl, rfl, rfl⟩, rfl, ⟨?_, ?_⟩, rfl, rfl, rfl⟩, rfl, rfl⟩
  · exact List.length_replicate
  · exact fun k mem => List.eq_of_mem_replicate mem

/-- Nothing is decided yet. -/
def Ghost.nothing {Op : Type} : Ghost Op where
  decided := []
  marks := ∅
  floor _ := ([], ∅)
  Also _ := True
  mono _ _ := trivial

theorem diskOk_empty {Op : Type} (g : Ghost Op) :
    g.DiskOk .empty ((PersistentState.empty : PersistentState Op).whole g.decided) :=
  ⟨le_rfl, .inl rfl, Nat.zero_le _, rfl⟩

theorem trailsOk_start {Op Query Chunk : Type} {config : Config} {peers : Nat → Peer Op}
    {sent : Nat → Set (Nat × Message Op Query Chunk)} (several : 3 ≤ config.replicas.length)
    (quiet : ∀ R < config.replicas.length, sent R = ∅)
    (newborn : ∀ R < config.replicas.length, Newborn config R (peers R)) :
    TrailsOk config sent (fun R => [⟨peers R, ∅⟩]) .nothing where
  live R inside := ⟨_, _, rfl, fun envelope mem => by
    rw [quiet R inside] at mem
    exact mem.elim⟩
  earlier _ _ := List.pairwise_singleton _ _
  rooted R inside := ⟨fun _ mem => mem.elim, fun _ => (newborn R inside).views.1⟩
  worlds system older choice := by
    have isStart : ∀ R < config.replicas.length, system R = ⟨peers R, ∅⟩ ∧ older R = [] := by
      intro R inside
      rcases List.suffix_cons_iff.mp (choice.onTrail R inside) with same | none
      · exact List.cons.inj same
      · cases List.suffix_nil.mp none
    have speakers : ∀ R < config.replicas.length,
        SpeakerOk config opening (fun _ _ => opening) (netOf config sent) R (system R) := by
      intro R inside
      rw [(isStart R inside).1]
      exact speakerOk_newborn (newborn R inside) _ _
    refine ⟨opening, fun _ _ => opening, rfl, rfl, ⟨several, opening_valid, speakers, ?_⟩, ?_, ?_,
      trivial⟩
    · rintro envelope ⟨R, inside, mem⟩
      rw [quiet R inside] at mem
      exact mem.elim
    · intro R inside
      rw [(isStart R inside).2]
      exact .cons (speakers R inside) trivial
    · intro R inside recovering
      rw [(isStart R inside).1] at recovering
      cases (newborn R inside).status.symm.trans recovering

theorem nodeOk_start {config : Config} {R : Nat} {machine : SM} {r : Replica SM}
    (run : Replica.new R config machine = some r) :
    NodeOk R .nothing [⟨r.peer, ∅⟩] (Node.start r) := by
  obtain ⟨_, newborn, quiet, silent⟩ := Replica.new_newborn run
  obtain ⟨commit, applied, start⟩ := newborn.counters
  have inv : Owner.Inv (Node.start r).toOwner := Owner.inv_start (.new run)
  have nothing : ∀ v, (Ghost.nothing : Ghost (Input SM)).Known v 0 := fun _ => .inl rfl
  refine
    { inv := inv
      head := ⟨_, _, rfl, ⟨rfl, fun envelope mem => ?_⟩, .nil, fun envelope mem => ?_, ?_, ?_⟩
      queued := fun _ mem => mem
      replies := fun _ mem => mem
      sent := List.nil_subset _
      yielded := List.nil_subset _
      start := start.le
      kept := Nat.zero_le _
      disk := ⟨fun _ => diskOk_empty _, le_rfl, fun _ _ => ⟨?_, fun m _ within _ => ?_, fun _ later => ?_⟩⟩
      target := fun state isTarget => by cases isTarget }
  · rw [show (Node.start r).now.said = r.queued from rfl, quiet] at mem
    cases mem
  · rw [show (Node.start r).replica.queued = r.queued from rfl, quiet] at mem
    cases mem
  · intro recovering
    cases newborn.status.symm.trans recovering
  · exact fun _ _ _ mem => mem.elim
  · exact show Ghost.Known _ _ r.peer.applied from applied ▸ nothing _
  · have : m = 0 := by
      have : r.peer.commitNumber = 0 := commit
      have : m ≤ r.peer.commitNumber := within
      omega
    exact this ▸ nothing _
  · have : 0 < r.peer.viewNumber := later
    have := newborn.views.1
    omega

end Node

/-! ## The ghost moves on -/

/-- More is decided, more was decided when each recovery began, and more holds
besides. -/
structure Ghost.Onward {Op : Type} (g g' : Ghost Op) : Prop where
  le : g.Le g'
  floor : ∀ R, (g.floor R).1 <+: (g'.floor R).1 ∧ (g.floor R).2 ⊆ (g'.floor R).2
  also : ∀ w, g'.Also w → g.Also w

theorem Ghost.Onward.refl {Op : Type} (g : Ghost Op) : g.Onward g :=
  ⟨.refl g, fun _ => ⟨List.prefix_rfl, fun _ mem => mem⟩, fun _ also => also⟩

theorem Ghost.Onward.trans {Op : Type} {g g' g'' : Ghost Op} (first : g.Onward g')
    (second : g'.Onward g'') : g.Onward g'' where
  le := first.le.trans second.le
  floor R := ⟨(first.floor R).1.trans (second.floor R).1,
    fun _ mem => (second.floor R).2 ((first.floor R).2 mem)⟩
  also w also := first.also w (second.also w also)

theorem Ghost.Le.onward {Op : Type} {g g' : Ghost Op} (le : g.Le g') (floor : g'.floor = g.floor)
    (also : g'.Also = g.Also) : g.Onward g' where
  le := le
  floor R := by
    rw [floor]
    exact ⟨List.prefix_rfl, fun _ mem => mem⟩
  also w holds := also ▸ holds

/-- What was decided when a recovery began is decided. -/
def Ghost.Grounded {Op : Type} (g : Ghost Op) : Prop :=
  ∀ R, (g.floor R).1 <+: g.decided ∧ (g.floor R).2 ⊆ g.marks

theorem Ghost.Grounded.keep {Op : Type} {g g' : Ghost Op} (grounded : g.Grounded) (le : g.Le g')
    (floor : g'.floor = g.floor) : g'.Grounded := by
  intro R
  rw [floor]
  exact ⟨(grounded R).1.trans le.decided, fun _ mem => le.marks ((grounded R).2 mem)⟩

theorem Ghost.begin_onward {Op Query Chunk : Type} {g : Ghost Op} (grounded : g.Grounded) (R : Nat)
    (trail : Trail Op Query Chunk) : g.Onward (g.begin R trail) where
  le := ⟨List.prefix_rfl, fun _ mem => mem⟩
  floor S := by
    rcases eq_or_ne S R with rfl | other
    · simp only [Ghost.begin, Function.update_self]
      exact grounded S
    · simp only [Ghost.begin, Function.update_of_ne other]
      exact ⟨List.prefix_rfl, fun _ mem => mem⟩
  also _ also := also.1

theorem Ghost.Grounded.begin {Op Query Chunk : Type} {g : Ghost Op} (grounded : g.Grounded) (R : Nat)
    (trail : Trail Op Query Chunk) : (g.begin R trail).Grounded := by
  intro S
  rcases eq_or_ne S R with rfl | other
  · simp only [Ghost.begin, Function.update_self]
    exact ⟨List.prefix_rfl, fun _ mem => mem⟩
  · simp only [Ghost.begin, Function.update_of_ne other]
    exact grounded S

/-- In every world there can be, view `v` has a log that `L` begins. -/
def Ghost.Pins {Op : Type} (g : Ghost Op) (v : Nat) (L : List (LogEntry Op)) : Prop :=
  ∀ w, g.Also w → HeldIn w v L

/-- Whatever `R` had acknowledged when its trail began is pinned. -/
def Pinned {Op Query Chunk : Type} (R : Nat) (g : Ghost Op) (trail : Trail Op Query Chunk) : Prop :=
  ∀ first, [first] <:+ trail → ∀ receiver v opNumber,
    (receiver, .prepareOk v opNumber R) ∈ first.said → ∃ L, opNumber ≤ L.length ∧ g.Pins v L

/-- `L` is as much of the log of view `v` as is pinned, or as some state on the trail
held. -/
def Recalled {Op Query Chunk : Type} (g : Ghost Op) (trail : Trail Op Query Chunk) (v : Nat)
    (L : List (LogEntry Op)) : Prop :=
  g.Pins v L ∨ ∃ before ∈ trail, before.peer.inView ∧ before.peer.viewNumber = v ∧
    L = before.peer.whole g.decided

theorem Pinned.mono {Op Query Chunk : Type} {R : Nat} {g g' : Ghost Op}
    {trail trail' : Trail Op Query Chunk} (pinned : Pinned R g trail) (onward : g.Onward g')
    (root : ∀ first, [first] <:+ trail' → [first] <:+ trail) : Pinned R g' trail' := by
  intro first isFirst receiver v opNumber mem
  obtain ⟨L, within, pins⟩ := pinned first (root first isFirst) receiver v opNumber mem
  exact ⟨L, within, fun w also => pins w (onward.also w also)⟩

/-! ## A node takes a step -/

section Step
variable {SM : Type} [StateMachine SM] {config : Config} {sent : Nat → Set (Envelope SM)}
  {trails : Nat → TrailFor SM} {g : Ghost (Input SM)} {R : Nat} {n : Node SM}

/-- What the write that is out holds of the view it was taken in is `own`. -/
def Replica.WritesHold (r : Replica SM) (own : Nat → Nat → Prop) : Prop :=
  ∀ outstanding, r.outstanding = some outstanding → outstanding.lastNormalView = r.viewNumber →
    ∀ durable, (r.handedBack outstanding).durableOp = some durable → ∀ k ≤ durable,
      own r.viewNumber k

/-- What becomes of the ghost, and of the trail of a node that takes a step, where
its writes hold `own`.  Unless the disk is lost the trail goes back to where it did. -/
structure Goes (config : Config) (sent : Nat → Set (Envelope SM)) (trails : Nat → TrailFor SM)
    (own : Nat → Nat → Prop) (g : Ghost (Input SM)) (R : Nat) (n n' : Node SM)
    (g' : Ghost (Input SM)) (trail' : TrailFor SM) : Prop where
  onward : g.Onward g'
  grounded : g'.Grounded
  worlds : TrailsOk config (Function.update sent R { envelope | envelope ∈ n'.sent })
    (Function.update trails R trail') g'
  node : NodeOk R g' trail' n'
  backed : Backed config (netOf config sent) R own n.replica.peer g g' n'.replica.peer
  pinned : Pinned R g (trails R) → Pinned R g' trail'

variable {own : Nat → Nat → Prop} (ok : NodeOk R g (trails R) n)
  (trailsOk : TrailsOk config sent trails g) (grounded : g.Grounded)
  (inside : R < config.replicas.length) (isSent : sent R = { envelope | envelope ∈ n.sent })
  (acks : OwnAcks (netOf config sent) R own n.replica.peer)
include ok trailsOk grounded inside isSent acks

/-- A call that acts by the protocol, and drains some of what was queued. -/
theorem NodeOk.called {offered : EntryFor SM → Prop} {r : Replica SM}
    (runs : Replica.Runs (hears (netOf config sent) R offered own) n.replica r)
    (step : Owner.Step n.toOwner { n.toOwner with replica := r }) {sent' : List (Envelope SM)}
    {yielded : List (Reply (Output SM))} (more : n.sent ⊆ sent') (drained : sent' ⊆ n.said)
    (yields : yielded ⊆ n.replied) :
    ∃ g' trail', Goes config sent trails own g R n
      { n.advance r with sent := sent', yielded := yielded } g' trail' ∧
        SameRoot (trails R) trail' := by
  have inv : Owner.Inv ⟨r, n.disk, n.out⟩ := Owner.inv_step ok.inv step
  obtain ⟨s₀, older₀, isTrail, _⟩ := ok.head
  obtain ⟨g', trail', le, floor, also, longer, trailsOk', ok', backed⟩ :=
    ok.advanced trailsOk inside isSent rfl (fun _ mem => mem) runs acks inv more drained yields
      ok.disk ok.target
  have root : SameRoot (trails R) trail' :=
    .of_suffix (isTrail ▸ List.suffix_rfl) (isTrail ▸ longer)
  have onward := le.onward floor also
  exact ⟨g', trail', ⟨onward, grounded.keep le floor, trailsOk', ok', backed, (.mono · onward root)⟩,
    root⟩

/-- A write is taken. -/
theorem NodeOk.takes {r : Replica SM} {write : LogWrite (Input SM)} (free : n.out = none)
    (run : n.replica.takeWrite = some (r, write)) :
    ∃ g' trail', Goes config sent trails own g R n
      { n.advance r with out := some (write, false) } g' trail' ∧ SameRoot (trails R) trail' := by
  obtain ⟨_, durable, isDurable, peer, queued⟩ := Replica.takeWrite_cases run
  have inv : Owner.Inv ⟨r, n.disk, some (write, false)⟩ := Owner.inv_step ok.inv (.take free run)
  have standing : r.peer.toStanding = n.replica.peer.toStanding := by
    rw [peer]
  have tracks := (ok.inv.between free).tracks
  obtain ⟨said, live⟩ := ok.live trailsOk inside
  have live' := live.setWrites r.peer.toWriteState
  have same : ({ n.replica.peer with toWriteState := r.peer.toWriteState } : Peer (Input SM)) =
      r.peer := by
    rw [peer]
  rw [same] at live'
  have changed : r.peer.durable = durable := by
    rw [peer]
  have disk : Copy g n r.peer (· ≤ r.durable) n.disk :=
    ⟨ok.disk.disk, ok.disk.start, fun kept recoverable =>
      (ok.disk.lags kept recoverable).take standing isDurable changed⟩
  have target : Copy g n r.peer (fun _ => True) n.replica.persistentState := by
    have awake : n.replica.persistentState.recovering = false → n.replica.status ≠ .recovering :=
      fun kept recovering => by cases kept.symm.trans (decide_eq_true recovering)
    refine ⟨fun kept => live.diskOk (awake kept), ok.start, fun kept _ => ?_⟩
    have isStatus : r.peer.status = n.replica.peer.status := by
      rw [standing]
    have lag : Lag g r.peer.viewNumber (fun _ => True) r.peer := live'.lag (isStatus ▸ awake kept)
    rwa [standing] at lag
  have runs : Replica.Runs (hears (netOf config sent) R (fun _ => True) own) r r := .refl r
  have acks' : OwnAcks (netOf config sent) R own r.peer := by
    rw [← same]
    exact acks.same id rfl rfl rfl rfl
  obtain ⟨s₀, older₀, isTrail, _⟩ := ok.head
  obtain ⟨g', trail', le, floor, also, longer, trailsOk', ok', backed⟩ :=
    ok.advanced trailsOk inside isSent same.symm (fun envelope mem => (queued envelope).mp mem) runs
      acks' inv (List.Subset.refl _) ok.sent ok.yielded disk fun state isTarget => by
        cases Option.some.inj (isTarget.symm.trans (takeWrite_apply run tracks))
        exact target
  have root : SameRoot (trails R) trail' :=
    .of_suffix (isTrail ▸ List.suffix_rfl) (isTrail ▸ longer)
  have onward := le.onward floor also
  exact ⟨g', trail', ⟨onward, grounded.keep le floor, trailsOk', ok', backed, (.mono · onward root)⟩,
    root⟩

omit inside in
/-- A write lands. -/
theorem NodeOk.lands {disk : PersistentState (Input SM)} {write : LogWrite (Input SM)}
    (isOut : n.out = some (write, false)) (run : n.disk.apply write = some disk) :
    ∃ g' trail', Goes config sent trails own g R n
      { n with disk := disk, out := some (write, true) } g' trail' ∧ SameRoot (trails R) trail' := by
  have inv : Owner.Inv ⟨n.replica, disk, some (write, true)⟩ :=
    Owner.inv_step ok.inv (.land isOut run)
  have isTarget : n.target = some disk := by
    unfold Owner.target
    rw [isOut]
    exact run
  have target := ok.target disk isTarget
  have copy : Copy g { n with disk := disk, out := some (write, true) } n.replica.peer (fun _ => True)
      disk := ⟨target.disk, target.start, target.lags⟩
  refine ⟨g, trails R, ⟨.refl g, grounded, ?_, ?_, .refl acks id, id⟩, fun _ => id⟩
  · rw [Function.update_eq_self, ← isSent, Function.update_eq_self]
    exact trailsOk
  · exact
      { ok with
        inv := inv
        disk := ⟨copy.disk, copy.start, fun kept recoverable =>
          (copy.lags kept recoverable).weaken fun _ _ => trivial⟩
        target := fun state isState => by
          cases isState
          exact copy }

/-- A write is handed back. -/
theorem NodeOk.handsBack {r : Replica SM} {write : LogWrite (Input SM)} {landed : Bool}
    (isOut : n.out = some (write, landed)) (durable : landed = true ∨ write.sync = false)
    (run : n.replica.persisted write = some r) (holds : n.replica.WritesHold own) :
    ∃ g' trail', Goes config sent trails own g R n { n.advance r with out := none } g' trail' ∧
      SameRoot (trails R) trail' := by
  have inv : Owner.Inv ⟨r, n.disk, none⟩ := Owner.inv_step ok.inv (.handBack isOut durable run)
  obtain ⟨outstanding, _, _, runs⟩ := Replica.persisted_runs
    (i := hears (netOf config sent) R (fun _ => True) own) run holds
  -- What has landed, or needed no sync, holds what memory held when it was taken.
  obtain ⟨target, isTarget, same⟩ : ∃ target, n.target = some target ∧
      { n.disk with commitNumber := target.commitNumber } = target := by
    obtain ⟨_, target, _, _, hasLanded, lands⟩ := ok.inv.during write landed isOut
    refine ⟨target, ?_, ?_⟩
    · unfold Owner.target
      rw [isOut]
      cases landed with
      | true => exact congrArg some (hasLanded rfl)
      | false => exact (lands rfl).1
    · cases landed with
      | true =>
          rw [hasLanded rfl]
      | false => exact (lands rfl).2 (durable.resolve_left (by simp))
  have copy := ok.target target isTarget
  have isView : target.viewNumber = n.disk.viewNumber := (congrArg (·.viewNumber) same).symm
  have disk : Copy g n (n.replica.handedBack outstanding).peer
      (· ≤ (n.replica.handedBack outstanding).durable) n.disk := by
    refine ⟨ok.disk.disk, ok.disk.start, fun kept recoverable => ?_⟩
    have recovering : target.recovering = false := (congrArg (·.recovering) same).symm.trans kept
    have lags := copy.lags recovering (by
      obtain ⟨b, isMoment, persisted, allSaid⟩ := recoverable
      refine ⟨b, isMoment, ?_, allSaid⟩
      unfold Moment.Persisted at persisted ⊢
      rw [← same, ← persisted])
    rw [isView] at lags
    have back : Lag g n.disk.viewNumber (fun _ => True)
        (n.replica.handedBack outstanding).peer := lags.handBack rfl rfl
    exact back.weaken fun _ _ => trivial
  have paced : (n.replica.handedBack outstanding).peer = { n.replica.peer with
      toWriteState := (n.replica.handedBack outstanding).toWriteState } := rfl
  have acks' : OwnAcks (netOf config sent) R own (n.replica.handedBack outstanding).peer :=
    acks.same id rfl rfl rfl rfl
  obtain ⟨s₀, older₀, isTrail, _⟩ := ok.head
  obtain ⟨g', trail', le, floor, also, longer, trailsOk', ok', backed⟩ :=
    ok.advanced trailsOk inside isSent paced (fun _ mem => mem) runs acks' inv (List.Subset.refl _)
      ok.sent ok.yielded disk fun state isState => by cases isState
  have root : SameRoot (trails R) trail' :=
    .of_suffix (isTrail ▸ List.suffix_rfl) (isTrail ▸ longer)
  have onward := le.onward floor also
  exact ⟨g', trail', ⟨onward, grounded.keep le floor, trailsOk', ok', backed, (.mono · onward root)⟩,
    root⟩

omit inside in
/-- The state machine makes more of what it has applied durable. -/
theorem NodeOk.keeps {opNumber : Nat} (more : n.kept ≤ opNumber)
    (applied : opNumber ≤ n.replica.applied) :
    ∃ g' trail', Goes config sent trails own g R n { n with kept := opNumber } g' trail' ∧
      SameRoot (trails R) trail' := by
  refine ⟨g, trails R, ⟨.refl g, grounded, ?_, ?_, .refl acks id, id⟩, fun _ => id⟩
  · rw [Function.update_eq_self, ← isSent, Function.update_eq_self]
    exact trailsOk
  · have later : ∀ {p : Peer (Input SM)} {Within : Nat → Prop} {state : PersistentState (Input SM)},
        Copy g n p Within state → Copy g { n with kept := opNumber } p Within state :=
      fun copy => ⟨copy.disk, copy.start.trans more, copy.lags⟩
    exact
      { ok with
        start := ok.start.trans more
        kept := applied
        disk := later ok.disk
        target := fun state isTarget => later (ok.target state isTarget) }

omit acks in
/-- The replica restarts from what has landed. -/
theorem NodeOk.crashes {newer older : List (Moment SM)} {back : Moment SM}
    (split : n.moments = newer ++ back :: older) (persisted : back.Persisted n.disk)
    (allSaid : n.sent ⊆ back.said) (allReplied : n.yielded ⊆ back.replied) {machine : SM}
    {nonce : Nat} (fresh : n.disk.recovering = true → nonce ∉ n.nonces) {r : Replica SM}
    (run : Replica.restart n.replica.selfId n.replica.config machine n.kept n.disk nonce = some r) :
    ∃ g' trail', Goes config sent trails own g R n (n.resume back older r nonce) g' trail' ∧
      SameRoot (trails R) trail' := by
  obtain ⟨isConfig, isId⟩ := ok.identity trailsOk inside
  rw [isConfig, isId] at run
  have same : Function.update sent R { envelope | envelope ∈ (n.resume back older r nonce).sent } =
      sent := by
    show Function.update sent R { envelope | envelope ∈ n.sent } = sent
    rw [← isSent, Function.update_eq_self]
  cases recovering : n.disk.recovering with
  | false =>
      obtain ⟨g', trail', le, floor, also, trailsOk', ok', backed, root⟩ :=
        ok.restarted trailsOk inside isSent split persisted allSaid allReplied run recovering own
      have onward := le.onward floor also
      exact ⟨g', trail', ⟨onward, grounded.keep le floor, same.symm ▸ trailsOk', ok', backed,
        (.mono · onward root)⟩, root⟩
  | true =>
      obtain ⟨g', trail', le, floor, also, trailsOk', ok', backed, root⟩ :=
        ok.restarted_recovering trailsOk inside isSent split persisted allSaid allReplied run
          recovering (fresh recovering) own
      have onward := le.onward floor also
      exact ⟨g', trail', ⟨onward, grounded.keep le floor, same.symm ▸ trailsOk', ok', backed,
        (.mono · onward root)⟩, root⟩

omit acks in
/-- The replica loses its disk and begins a recovery. -/
theorem NodeOk.loses {machine : SM} {viewNumber nonce : Nat}
    (view : ∀ envelope ∈ n.sent, ∀ v, envelope.2.stamp = some v → v ≤ viewNumber)
    (fresh : nonce ∉ n.nonces) {r : Replica SM}
    (run : Replica.recover n.replica.selfId n.replica.config machine viewNumber nonce = some r) :
    ∃ g' trail', Goes config sent trails own g R n (n.startOver r nonce) g' trail' ∧
      g'.floor R = (g.decided, g.marks) ∧
      (Pinned R g (trails R) → ∀ receiver v opNumber,
        (receiver, .prepareOk v opNumber R) ∈ sent R →
          ∃ L, opNumber ≤ L.length ∧ g'.Pins v L ∧ Recalled g (trails R) v L) := by
  obtain ⟨isConfig, isId⟩ := ok.identity trailsOk inside
  rw [isConfig, isId] at run
  obtain ⟨several, isRecovered⟩ := Replica.recover_eq run
  have blank : Blank config R nonce (Replica.forgetful R config machine viewNumber nonce).peer := by
    refine ⟨rfl, rfl, rfl, Nat.zero_le _, rfl, ⟨rfl, rfl⟩, List.length_replicate, rfl, rfl, rfl, rfl,
      rfl⟩
  obtain ⟨s₀, older₀, isSuffix, said₀, trailsOk'⟩ := trailsOk.lose inside blank (fun envelope mem => by
    rw [isSent] at mem
    exact view envelope mem) (ok.unused trailsOk inside fresh) rfl
  have recovers : Replica.Runs (hears (netOf config sent) R (fun _ => True) own)
      (Replica.forgetful R config machine viewNumber nonce) r := by
    rw [isRecovered]
    exact Replica.sendRecovery_runs rfl
  obtain ⟨said', steps, queued⟩ := recovers (stampedOf (sent R)) fun _ mem => by cases mem
  have nonces : NoncesOk R (nonce :: n.nonces)
      ⟨(Replica.forgetful R config machine viewNumber nonce).peer, stampedOf (sent R)⟩ := by
    refine ⟨fun _ => List.mem_cons_self, fun receiver other asked mem => ?_⟩
    obtain ⟨s, older, _, isNow, _, _, nonces⟩ := ok.head
    refine List.mem_cons_of_mem _ (nonces.2 receiver other asked (isNow.said _ (ok.sent ?_) ?_))
    · have := mem.1
      rwa [isSent] at this
    · simp [Message.stamp]
  have none : OwnAcks (netOf config sent) R own
      (Replica.forgetful R config machine viewNumber nonce).peer :=
    ownAcks_zero fun k mem => List.eq_of_mem_replicate mem
  have unmarked : Accounts config (netOf config sent) R own g (g.begin R (trails R)) := .refl
  obtain ⟨g', older', le, floor, also, isRoot, ⟨nonces', backed⟩, trailsOk''⟩ :=
    trailsOk'.steps_keep inside (Function.update_self ..) steps
      (P := fun g' s' => NoncesOk R (nonce :: n.nonces) s' ∧
        Backed config (netOf config sent) R own n.replica.peer g g' s'.peer)
      ⟨nonces, none, unmarked, fun _ awake => absurd blank.status awake⟩
      fun follows live _ step holds => ⟨holds.1.step step, holds.2.step live follows step⟩
  rw [Function.update_idem] at trailsOk''
  have onward := (Ghost.begin_onward grounded R _).trans (le.onward floor also)
  have isSame : Function.update sent R { envelope | envelope ∈ (n.startOver r nonce).sent } = sent := by
    show Function.update sent R { envelope | envelope ∈ n.sent } = sent
    rw [← isSent, Function.update_eq_self]
  -- Whatever was acknowledged was when the trail ended, or before it began.
  have pins : Pinned R g (trails R) → ∀ receiver v opNumber,
      (receiver, .prepareOk v opNumber R) ∈ sent R →
        ∃ L, opNumber ≤ L.length ∧ g'.Pins v L ∧ Recalled g (trails R) v L := by
    intro pinned receiver v opNumber mem
    have rooted := (trailsOk.rooted R inside).suffix isSuffix
    have mem₀ := said₀ _ mem (by simp [Message.stamp])
    rcases rooted.truth mem₀ with ⟨first, isFirst, mem⟩ | ⟨before, isBefore, i, truthful⟩
    · obtain ⟨L, within, pins⟩ := pinned first (isFirst.trans isSuffix) receiver v opNumber mem
      exact ⟨L, within, fun w holds => pins w (onward.also w holds), .inl pins⟩
    · obtain ⟨status, rfl, rfl, _⟩ := truthful
      have onTrail := isSuffix.subset isBefore
      refine ⟨before.peer.whole g.decided, ?_, fun w holds => ?_,
        .inr ⟨before, onTrail, .inl status, rfl, rfl⟩⟩
      · exact (Standing.length_whole (trailsOk.logStart_le inside before onTrail)).ge
      · rw [also] at holds
        exact holds.2 before isBefore (.inl status)
  refine ⟨g', _, ⟨onward, (grounded.begin R _).keep le floor, isSame.symm ▸ trailsOk'', ?_, backed,
    fun pinned first isFirst receiver v opNumber mem => ?_⟩, ?_, pins⟩
  rotate_left
  · have isSuffix := List.suffix_of_suffix_length_le isFirst isRoot le_rfl
    rcases List.suffix_cons_iff.mp isSuffix with same | none
    · rw [(List.cons.inj same).1] at mem
      obtain ⟨L, within, pins, _⟩ := pins pinned receiver v opNumber mem.1
      exact ⟨L, within, pins⟩
    · cases List.suffix_nil.mp none
  · rw [floor]
    simp [Ghost.begin]
  · have peer : r.peer = (Replica.forgetful R config machine viewNumber nonce).peer := by
      rw [isRecovered]
      exact congrArg Core.peer (Replica.sendRecovery_same _).core
    have recovering : r.status = .recovering := congrArg (·.status) peer
    refine
      { inv := Owner.inv_start (.recover run)
        head := ⟨_, older', rfl, ⟨rfl, fun envelope mem stamped => ?_⟩,
          Traces.nil.further (List.nil_suffix ..), queued, nonces'⟩
        queued := fun _ mem => List.mem_append_right _ mem
        replies := fun _ mem => List.mem_append_right _ mem
        sent := fun _ mem => List.mem_append_left _ mem
        yielded := fun _ mem => List.mem_append_left _ mem
        start := (congrArg (·.logStart) peer).le
        kept := Nat.zero_le _
        disk := ⟨fun _ => diskOk_empty _, le_rfl, fun _ recoverable => ?_⟩
        target := fun state isTarget => by cases isTarget }
    · rcases List.mem_append.mp mem with mem | mem
      · refine Steps.said steps ⟨?_, stamped⟩
        rw [isSent]
        exact mem
      · exact queued envelope mem
    · -- The disk is empty, and does not even hold that the replica is recovering.
      obtain ⟨b, isMoment, persisted, _⟩ := recoverable
      have isNow : b = (n.startOver r nonce).now := by simpa [Node.moments, Node.startOver] using isMoment
      subst isNow
      have := congrArg (·.recovering) persisted
      have : decide (r.status = .recovering) = false := this
      simp [recovering] at this

/-- Whatever a node does keeps what holds. -/
theorem NodeOk.step {setting : Setting SM} (orderly : setting.orderly)
    {hearing : MessageFor SM → Prop}
    (heard : ∀ message, hearing message → message.fromClient = false →
      (R, message) ∈ netOf config sent)
    (holds : ∀ write landed, n.out = some (write, landed) → landed = true ∨ write.sync = false →
      n.replica.WritesHold own)
    {n' : Node SM} (step : Node.Step setting hearing n n') :
    ∃ g' trail', Goes config sent trails own g R n n' g' trail' ∧
      (¬setting.diskLoss → SameRoot (trails R) trail') := by
  have goes : ∀ {n' : Node SM},
      (∃ g' trail', Goes config sent trails own g R n n' g' trail' ∧ SameRoot (trails R) trail') →
      ∃ g' trail', Goes config sent trails own g R n n' g' trail' ∧
        (¬setting.diskLoss → SameRoot (trails R) trail') := by
    rintro n' ⟨g', trail', goes, root⟩
    exact ⟨g', trail', goes, fun _ => root⟩
  have call : ∀ {r : Replica SM}, Replica.Runs
      (hears (netOf config sent) R (fun _ => True) own) n.replica r →
      Owner.Step n.toOwner { n.toOwner with replica := r } →
      ∃ g' trail', Goes config sent trails own g R n (n.advance r) g' trail' ∧
        SameRoot (trails R) trail' := fun runs step =>
    ok.called trailsOk grounded inside isSent acks runs step (List.Subset.refl _) ok.sent ok.yielded
  obtain ⟨before, drains, replies⟩ := Replica.drains_run
    (i := hears (netOf config sent) R (fun _ => True) own) n.replica
  cases step with
  | message message isHeard run =>
      refine goes (call (Replica.onMessage_runs run (Owner.quorum_two (Owner.several_of_inv ok.inv))
        (heard message isHeard) fun _ _ => trivial) (.message message run))
  | idle run => exact goes (call (Replica.onIdle_runs run) (.idle run))
  | compact opNumber durable run => exact goes (call (Replica.compact_runs run) (.compact opNumber run))
  | keep opNumber more applied => exact goes (ok.keeps trailsOk grounded isSent acks more applied)
  | take free run => exact goes (ok.takes trailsOk grounded inside isSent acks free run)
  | land isOut run => exact goes (ok.lands trailsOk grounded isSent acks isOut run)
  | handBack isOut durable run => exact goes (ok.handsBack trailsOk grounded inside isSent acks isOut durable run
        (holds _ _ isOut durable))
  | drainBeforePersist =>
      refine goes (ok.called trailsOk grounded inside isSent acks before .drainBeforePersist
        (List.subset_append_left _ _)
        (List.append_subset.mpr ⟨ok.sent, fun envelope mem => ok.queued ?_⟩) ok.yielded)
      simp only [Replica.queued, Replica.drainMessagesBeforePersist, List.mem_append] at mem ⊢
      tauto
  | drain =>
      refine goes (ok.called trailsOk grounded inside isSent acks drains .drain (List.subset_append_left _ _)
        (List.append_subset.mpr ⟨ok.sent, fun envelope mem => ok.queued ?_⟩) ok.yielded)
      simp only [Replica.queued, Replica.drainMessages, List.mem_append] at mem ⊢
      tauto
  | drainReplies =>
      exact goes (ok.called trailsOk grounded inside isSent acks replies .drainReplies
        (List.Subset.refl _) ok.sent
        (List.append_subset.mpr ⟨ok.yielded, fun reply mem => ok.replies mem⟩))
  | crash newer older back split isOrderly machine comesBack nonce fresh run =>
      obtain ⟨persisted, allSaid, allReplied⟩ := isOrderly orderly
      exact goes (ok.crashes trailsOk grounded inside isSent split persisted allSaid allReplied fresh
        run)
  | lose allowed machine blank viewNumber view nonce fresh run =>
      obtain ⟨g', trail', goes, _⟩ := ok.loses trailsOk grounded inside isSent view fresh run
      exact ⟨g', trail', goes, fun lossless => absurd allowed lossless⟩

end Step

/-! ## A cluster takes a step -/

section Cluster
variable {SM : Type} [StateMachine SM]

/-- What a replica holds as committed is decided. -/
theorem NodeOk.decided {config : Config} {sent : Nat → Set (Envelope SM)} {trails : Nat → TrailFor SM}
    {g : Ghost (Input SM)} {R : Nat} {n : Node SM} (ok : NodeOk R g (trails R) n)
    (worlds : TrailsOk config sent trails g) (inside : R < config.replicas.length) {opNumber : Nat}
    (reached : opNumber ≤ n.replica.commitNumber) {entry : EntryFor SM}
    (found : n.replica.entry opNumber = some entry) :
    0 < opNumber ∧ g.decided[opNumber - 1]? = some entry := by
  obtain ⟨said, w, began, isDecided, _, _, _, _, speaker⟩ := ok.live worlds inside
  obtain ⟨pos, isEntry⟩ := whole_getElem? speaker.log.start_le found
  have within : opNumber - 1 < n.replica.peer.commitNumber := by
    have : opNumber ≤ n.replica.peer.commitNumber := reached
    omega
  have same := congrArg (fun l => l[opNumber - 1]?) speaker.log.agrees
  simp only [List.getElem?_take_of_lt within] at same
  refine ⟨pos, ?_⟩
  rw [← isDecided, ← same]
  exact isEntry

/-- What the primary commits is decided. -/
theorem CommitsOk.more {config : Config} {sent : Nat → Set (Envelope SM)} {trails : Nat → TrailFor SM}
    {g : Ghost (Input SM)} {R : Nat} {n : Node SM} (ok : NodeOk R g (trails R) n)
    (worlds : TrailsOk config sent trails g) (inside : R < config.replicas.length)
    {commits : List (Nat × Nat × EntryFor SM)} (before : CommitsOk g commits) (r : Replica SM) :
    CommitsOk g (commits ++ r.commitsTo n.replica) := by
  intro v opNumber entry mem
  rcases List.mem_append.mp mem with mem | mem
  · exact before v opNumber entry mem
  · unfold Replica.commitsTo at mem
    split at mem
    · next goes =>
      obtain ⟨_, _, status, view⟩ := goes
      obtain ⟨k, isNew, isEntry⟩ := List.mem_filterMap.mp mem
      obtain ⟨found, isFound, same⟩ := Option.map_eq_some_iff.mp isEntry
      simp only [Prod.mk.injEq] at same
      obtain ⟨rfl, rfl, rfl⟩ := same
      have within : k ≤ n.replica.commitNumber := by
        have := List.mem_range'_1.mp isNew
        omega
      obtain ⟨pos, isDecided⟩ := ok.decided worlds inside within isFound
      refine ⟨pos, ?_, isDecided⟩
      obtain ⟨said, w, began, _, isMarks, _, _, _, speaker⟩ := ok.live worlds inside
      have awake : n.replica.status ≠ .recovering := by simp [status]
      have known := (Ghost.known_iff isMarks).mp (speaker.log.known awake)
      rw [← view]
      exact known.of_le le_rfl within
    · cases mem

/-- `g` tells what is decided in the cluster. -/
structure Tracked (c : Cluster SM) (g : Ghost (Input SM)) : Prop where
  grounded : g.Grounded
  trails : ∃ trails, ClusterOk c trails g

theorem Tracked.start {setting : Setting SM} {c : Cluster SM} (starts : Cluster.Starts setting c) :
    Tracked c .nothing := by
  classical
  have nonempty : Nonempty (Replica SM) := ⟨(c.nodes 0).replica⟩
  have machines : Nonempty SM := ⟨(c.nodes 0).replica.stateMachine⟩
  choose! machine r blank run isNode using starts.nodes
  have quiet : ∀ R < c.size, sentOf c R = ∅ := by
    intro R inside
    unfold sentOf
    rw [isNode R inside]
    exact Set.eq_empty_of_forall_notMem fun envelope mem => by cases mem
  refine ⟨fun _ => ⟨List.prefix_rfl, fun _ mem => mem⟩, fun R => [⟨(r R).peer, ∅⟩], starts.several, ?_,
    fun R inside => ?_, ?_⟩
  · exact trailsOk_start starts.several quiet fun R inside =>
      (Replica.new_newborn (run R inside)).2.1
  · rw [isNode R inside]
    exact nodeOk_start (run R inside)
  · intro v opNumber entry mem
    rw [starts.commits] at mem
    cases mem

/-- What becomes of a node becomes of the cluster. -/
theorem ClusterOk.goes {c : Cluster SM} {trails : Nat → TrailFor SM} {g : Ghost (Input SM)}
    (ok : ClusterOk c trails g) {own : Nat → Nat → Prop} {R : Nat} (inside : R < c.size)
    {n' : Node SM} {g' : Ghost (Input SM)} {trail' : TrailFor SM}
    (goes : Goes c.config (sentOf c) trails own g R (c.nodes R) n' g' trail') :
    ClusterOk (c.update R n') (Function.update trails R trail') g' := by
  have isSent : sentOf (c.update R n') =
      Function.update (sentOf c) R { envelope | envelope ∈ n'.sent } := by
    funext S
    rcases eq_or_ne S R with rfl | other
    · simp [sentOf, Cluster.update]
    · simp [sentOf, Cluster.update, Function.update_of_ne other]
  refine ⟨ok.several, ?_, fun S insideS => ?_, ?_⟩
  · rw [isSent]
    exact goes.worlds
  · rcases eq_or_ne S R with rfl | other
    · simp only [Cluster.update, Function.update_self]
      exact goes.node
    · simp only [Cluster.update, Function.update_of_ne other]
      exact (ok.nodes S insideS).mono goes.onward.le
  · have node : NodeOk R g' (Function.update trails R trail' R) n' := by
      rw [Function.update_self]
      exact goes.node
    exact (ok.commits.mono goes.onward.le).more node goes.worlds inside (c.nodes R).replica

/-- One step of a node in a cluster in which no crash discards what was drained. -/
theorem ClusterOk.step {setting : Setting SM} (orderly : setting.orderly)
    {asks : MessageFor SM → Prop} {c : Cluster SM} {trails : Nat → TrailFor SM}
    {g : Ghost (Input SM)} (ok : ClusterOk c trails g) (grounded : g.Grounded)
    {own : Nat → Nat → Prop} {R : Nat} (inside : R < c.size)
    (acks : OwnAcks (netOf c.config (sentOf c)) R own (c.nodes R).replica.peer)
    (holds : ∀ write landed, (c.nodes R).out = some (write, landed) →
      landed = true ∨ write.sync = false → (c.nodes R).replica.WritesHold own)
    {n' : Node SM} (step : Node.Step setting (c.hears asks R) (c.nodes R) n') :
    ∃ g' trail', Goes c.config (sentOf c) trails own g R (c.nodes R) n' g' trail' ∧
      (¬setting.diskLoss → SameRoot (trails R) trail') := by
  have heard : ∀ message, c.hears asks R message → message.fromClient = false →
      (R, message) ∈ netOf c.config (sentOf c) := by
    rintro message (⟨S, insideS, mem⟩ | ⟨fromClient, _⟩) notClient
    · exact ⟨S, insideS, mem⟩
    · cases fromClient.symm.trans notClient
  exact (ok.nodes R inside).step ok.worlds grounded inside rfl acks orderly heard holds step

/-- A step of a node, whatever its writes hold. -/
theorem ClusterOk.next {setting : Setting SM} (orderly : setting.orderly)
    {asks : MessageFor SM → Prop} {c : Cluster SM} {trails : Nat → TrailFor SM}
    {g : Ghost (Input SM)} (ok : ClusterOk c trails g) (grounded : g.Grounded) {R : Nat}
    (inside : R < c.size) {n' : Node SM}
    (step : Node.Step setting (c.hears asks R) (c.nodes R) n') :
    ∃ g' trail', Goes c.config (sentOf c) trails (fun _ _ => True) g R (c.nodes R) n' g' trail' := by
  have acks : OwnAcks (netOf c.config (sentOf c)) R (fun _ _ => True) (c.nodes R).replica.peer :=
    fun _ _ _ _ _ => .inl trivial
  obtain ⟨g', trail', goes, _⟩ :=
    ok.step orderly grounded inside acks (fun _ _ _ _ _ _ _ _ _ _ _ => trivial) step
  exact ⟨g', trail', goes⟩

/-- One step of a cluster in which no crash discards what was drained. -/
theorem Tracked.step {setting : Setting SM} (orderly : setting.orderly) {asks : MessageFor SM → Prop}
    {c c' : Cluster SM} {g : Ghost (Input SM)} (tracked : Tracked c g)
    (step : Cluster.Step setting asks c c') : ∃ g', g.Onward g' ∧ Tracked c' g' := by
  obtain ⟨grounded, trails, ok⟩ := tracked
  cases step with
  | node R inside step =>
      obtain ⟨g', trail', goes⟩ := ok.next orderly grounded inside step
      exact ⟨g', goes.onward, goes.grounded, _, ok.goes inside goes⟩

/-- The runs of a cluster from a state. -/
abbrev Cluster.Runs (setting : Setting SM) (asks : MessageFor SM → Prop) :
    Cluster SM → Cluster SM → Prop :=
  Relation.ReflTransGen (Cluster.Step setting asks)

theorem Cluster.Reach.runs {setting : Setting SM} {asks : MessageFor SM → Prop} {c c' : Cluster SM}
    (reach : Cluster.Reach setting asks c) (runs : Cluster.Runs setting asks c c') :
    Cluster.Reach setting asks c' := by
  induction runs with
  | refl => exact reach
  | tail _ step ih => exact .step ih step

theorem Tracked.runs {setting : Setting SM} (orderly : setting.orderly) {asks : MessageFor SM → Prop}
    {c c' : Cluster SM} {g : Ghost (Input SM)} (tracked : Tracked c g)
    (runs : Cluster.Runs setting asks c c') : ∃ g', g.Onward g' ∧ Tracked c' g' := by
  induction runs with
  | refl => exact ⟨g, .refl g, tracked⟩
  | tail _ step ih =>
      obtain ⟨g₁, onward₁, tracked₁⟩ := ih
      obtain ⟨g₂, onward₂, tracked₂⟩ := tracked₁.step orderly step
      exact ⟨g₂, onward₁.trans onward₂, tracked₂⟩

theorem Cluster.Reach.tracked {setting : Setting SM} (orderly : setting.orderly)
    {asks : MessageFor SM → Prop} {c : Cluster SM} (reach : Cluster.Reach setting asks c) :
    ∃ g, Tracked c g := by
  induction reach with
  | start starts => exact ⟨_, .start starts⟩
  | step _ step ih =>
      obtain ⟨g, tracked⟩ := ih
      obtain ⟨g', _, tracked'⟩ := tracked.step orderly step
      exact ⟨g', tracked'⟩

end Cluster

end Vsr
