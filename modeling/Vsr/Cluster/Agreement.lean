import Vsr.Cluster.Script

/-!
# Agreement

What is committed at an op number is committed there for good, by every replica
and at every later time, whatever crashes and lost disks come in between.
-/

set_option autoImplicit false

namespace Vsr

namespace Cluster
variable {SM : Type} [StateMachine SM]

/-- The entry is committed at this op number: a replica holds it as committed, or
a primary has committed it. -/
def Committed (c : Cluster SM) (opNumber : Nat) (entry : EntryFor SM) : Prop :=
  (∃ R < c.size, opNumber ≤ (c.nodes R).replica.commitNumber ∧
      (c.nodes R).replica.entry opNumber = some entry) ∨
    ∃ v, (v, opNumber, entry) ∈ c.commits

end Cluster

section Agreement
variable {SM : Type} [StateMachine SM] {setting : Setting SM} {asks : MessageFor SM → Prop}
  {c c' : Cluster SM} {g : Ghost (Input SM)}

theorem Tracked.committed (tracked : Tracked c g) {opNumber : Nat} {entry : EntryFor SM}
    (committed : c.Committed opNumber entry) :
    0 < opNumber ∧ g.decided[opNumber - 1]? = some entry := by
  obtain ⟨trails, ok⟩ := tracked.trails
  rcases committed with ⟨R, inside, reached, found⟩ | ⟨v, mem⟩
  · exact (ok.nodes R inside).decided ok.worlds inside reached found
  · obtain ⟨pos, _, isDecided⟩ := ok.commits v opNumber entry mem
    exact ⟨pos, isDecided⟩

/-- What is committed was decided in a view. -/
theorem ClusterOk.marked {trails : Nat → TrailFor SM} (ok : ClusterOk c trails g) {opNumber : Nat}
    {entry : EntryFor SM} (pos : 0 < opNumber) (committed : c.Committed opNumber entry) :
    ∃ y m, (y, m) ∈ g.marks ∧ opNumber ≤ m := by
  have known : ∃ v, g.Known v opNumber := by
    rcases committed with ⟨R, inside, reached, _⟩ | ⟨v, mem⟩
    · obtain ⟨said, w, began, _, isMarks, _, _, _, speaker⟩ :=
        (ok.nodes R inside).live ok.worlds inside
      have known : ∃ v, w.KnownBy v (c.nodes R).replica.commitNumber := by
        by_cases recovering : (c.nodes R).replica.status = .recovering
        · obtain ⟨later, _, _, _, v, known⟩ := speaker.recovery.began recovering
          exact ⟨v, known.mono later⟩
        · exact ⟨_, speaker.log.known recovering⟩
      obtain ⟨v, known⟩ := known
      exact ⟨v, (Ghost.known_iff isMarks).mp (known.of_le le_rfl reached)⟩
    · exact ⟨v, (ok.commits v opNumber entry mem).2.1⟩
  obtain ⟨v, zero | ⟨y, m, mark, _, within⟩⟩ := known
  · omega
  · exact ⟨y, m, mark, within⟩

/-- A longer list holds what its start holds. -/
theorem getElem?_of_prefix {α : Type} {P L : List α} (isPrefix : P <+: L) {k : Nat} {a : α}
    (found : P[k]? = some a) : L[k]? = some a := by
  obtain ⟨rest, rfl⟩ := isPrefix
  rw [List.getElem?_append_left (List.getElem?_eq_some_iff.mp found).1, found]

/-- No op number is ever committed with two entries. -/
theorem Cluster.agreement (orderly : setting.orderly) (reach : Cluster.Reach setting asks c)
    (runs : Cluster.Runs setting asks c c') {opNumber : Nat} {entry entry' : EntryFor SM}
    (first : c.Committed opNumber entry) (later : c'.Committed opNumber entry') :
    entry = entry' := by
  obtain ⟨g, tracked⟩ := reach.tracked orderly
  obtain ⟨g', onward, tracked'⟩ := tracked.runs orderly runs
  obtain ⟨_, isEntry⟩ := tracked.committed first
  obtain ⟨_, isEntry'⟩ := tracked'.committed later
  have kept := getElem?_of_prefix onward.le.decided isEntry
  exact Option.some.inj (kept.symm.trans isEntry')

end Agreement

namespace Accumulator

/-- Who is registered at an op number the replica holds as committed. -/
def clientAt (c : Cluster Accumulator) (R opNumber : Nat) : Option Nat :=
  require (R < c.size ∧ opNumber ≤ (c.nodes R).replica.commitNumber) <|
    match (c.nodes R).replica.entry opNumber with
    | some (.register clientId) => some clientId
    | _ => none

theorem clientAt_committed {c : Cluster Accumulator} {R opNumber clientId : Nat}
    (isClient : clientAt c R opNumber = some clientId) :
    c.Committed opNumber (.register clientId) := by
  obtain ⟨⟨inside, reached⟩, found⟩ := require_eq_some.mp isClient
  refine .inl ⟨R, inside, reached, ?_⟩
  split at found
  · next registration isEntry =>
    rw [isEntry, Option.some.inj found]
  · cases found

/-- Replica 0 commits in view 0, and replica 1 in view 1, to which it went on
without having heard so. -/
theorem agreement_views : ∃ c c' : Cluster Accumulator,
    c.Committed 1 (.register 7) ∧ c'.Committed 1 (.register 7) ∧
      ∀ entry, c'.Committed 1 entry → entry = .register 7 := by
  have evaluated : ((three.play (spares true false) registers).bind fun c =>
      (c.play (spares true false) (changesView ++ follows)).map fun c' =>
        (clientAt c 0 1, clientAt c' 1 1)) = some (some 7, some 7) := by
    decide +kernel
  obtain ⟨c, run, rest⟩ := Option.bind_eq_some_iff.mp evaluated
  obtain ⟨c', run', clients⟩ := Option.map_eq_some_iff.mp rest
  obtain ⟨isClient, isClient'⟩ := Prod.mk.inj clients
  have fit := spares_fit true false
  have first := clientAt_committed isClient
  refine ⟨c, c', first, clientAt_committed isClient', fun entry later => ?_⟩
  exact (Cluster.agreement rfl ((three_reach true false).runs (Cluster.play_runs fit run))
    (Cluster.play_runs fit run') first later).symm

/-! ## A crash that discards what was drained -/

/-- Replica 1 starts view 1 with client 7 registered, tells replica 2 before its
write has landed, and replica 2 commits.  The crash takes replica 1 back behind
the start of the view, which it starts again, with client 8 registered. -/
def startsAgain : List (Event Accumulator) :=
  [.ask 0 (.register 7), .idle 1, .idle 1, .idle 1, .idle 1] ++ Event.persist 1 ++
    [.deliver 1 0, .deliver 1 1] ++ Event.persist 0 ++ Event.persist 2 ++
    [.deliver 0 2, .deliver 0 4, .idle 1, .drainBeforePersist 1, .deliver 1 3,
      .drainBeforePersist 2, .deliver 2 3, .drainBeforePersist 1, .deliver 1 4] ++ Event.persist 2 ++
    [.crash 1 5 0, .deliver 2 1, .deliver 2 2, .ask 1 (.register 8)] ++ Event.persist 1 ++
    [.deliver 2 4, .idle 1, .drainBeforePersist 1, .deliver 1 12]

/-- Agreement needs that no crash discards what was drained: messages that may
leave before they are persisted do promise something of the view they are of. -/
theorem disagreement : ∃ c : Cluster Accumulator,
    Cluster.Reach (setting false false) (fun _ => True) c ∧
      c.Committed 1 (.register 7) ∧ c.Committed 1 (.register 8) := by
  have evaluated : ((three.play (spares false false) startsAgain).map fun c =>
      (clientAt c 2 1, clientAt c 1 1)) = some (some 7, some 8) := by
    decide +kernel
  obtain ⟨c, run, clients⟩ := Option.map_eq_some_iff.mp evaluated
  obtain ⟨isClient, isClient'⟩ := Prod.mk.inj clients
  exact ⟨c, (three_reach false false).runs (Cluster.play_runs (spares_fit false false) run),
    clientAt_committed isClient, clientAt_committed isClient'⟩

end Accumulator

end Vsr
