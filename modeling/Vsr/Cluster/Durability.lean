import Vsr.Cluster.OnDisk
import Vsr.Cluster.Recovery
import Vsr.Durable.Executed

/-!
# Durability

As long as no disk is lost, a quorum of disks holds whatever is committed.  The
primary commits what a quorum has acknowledged, an acknowledgement is drained
only when the disk is as far as it says, and no crash takes a disk back.
-/

set_option autoImplicit false

namespace Vsr

open Consensus (World)

variable {SM : Type} [StateMachine SM]

namespace Node

/-- Whether what is on disk holds the committed op: in what the state machine has
durable, or in the log. -/
def Holds (n : Node SM) (opNumber : Nat) (entry : EntryFor SM) : Prop :=
  opNumber ≤ n.kept ∨ n.disk.entry opNumber = some entry

/-- By what is on disk, the replica has had the ops of view `v` up to `k`. -/
def Vouches (n : Node SM) (v k : Nat) : Prop :=
  ∃ d older, n.Saved d older ∧ ∃ b ∈ d :: older,
    b.replica.peer.inView ∧ b.replica.viewNumber = v ∧ k ≤ b.replica.opNumber

end Node

/-- The disk holds the log of the state it holds. -/
theorem Moment.Persisted.entry {d : Moment SM} {disk : PersistentState (Input SM)}
    (persisted : d.Persisted disk) (opNumber : Nat) :
    disk.entry opNumber = d.replica.entry opNumber := by
  have start : d.replica.logStart = disk.logStart := congrArg (·.logStart) persisted
  have log : d.replica.log = disk.log := congrArg (·.log) persisted
  unfold PersistentState.entry Standing.entry
  rw [start, log]

/-! ## No crash takes a disk back -/

section Orderly
variable {setting : Setting SM} {asks : MessageFor SM → Prop} {c : Cluster SM}
  (orderly : setting.orderly) (lossless : ¬setting.diskLoss)
  (reach : Cluster.Reach setting asks c)
include orderly lossless reach

/-- What a node remembers of itself. -/
theorem Cluster.Reach.remembered {R : Nat} (inside : R < c.size) :
    ∀ m ∈ (c.nodes R).moments, m.replica.status ≠ .recovering ∧
      m.replica.lastNormalView ≤ m.replica.viewNumber ∧
      (m.replica.peer.inView ↔ m.replica.lastNormalView = m.replica.viewNumber) := by
  intro m mem
  have awake := reach.awake orderly lossless inside m mem
  have ordered := Cluster.Reach.ever (P := fun _ m => m.replica.Ordered)
    (fun before S insideS => before.ordered orderly insideS) reach inside m mem
  refine ⟨awake, ordered.lastNormal, ordered.current, fun same => ?_⟩
  cases status : m.replica.status with
  | normal => exact .inl status
  | stateTransfer => exact .inr status
  | viewChange =>
      have := ordered.changing status
      omega
  | recovering => exact absurd status awake

omit lossless in
theorem Cluster.Reach.vouched {R : Nat} (inside : R < c.size) :
    Owner.Vouched (c.nodes R).toOwner :=
  Owner.vouched_reach (reach.owner orderly inside)

/-- What a disk vouches for, it does from then on. -/
theorem Cluster.Reach.vouches {R : Nat} (inside : R < c.size) {n' : Node SM}
    (step : Node.Step setting (c.hears asks R) (c.nodes R) n') {v k : Nat}
    (vouches : (c.nodes R).Vouches v k) : n'.Vouches v k := by
  obtain ⟨g, trails, w, ok, _⟩ := reach.picture orderly
  obtain ⟨d, older, saved, b, mem, inView, view, reaches⟩ := vouches
  obtain ⟨d', older', saved', goes⟩ := step.saved orderly lossless (ok.nodes R inside)
    (reach.vouched orderly inside) (reach.saidMore inside) saved
  rcases goes with later | ⟨remembered', persisted⟩
  · exact ⟨d', older', saved', b, later.subset mem, inView, view, reaches⟩
  · obtain ⟨newer, rest, split⟩ := List.append_of_mem mem
    have fromB : (b :: rest) <:+ (d :: older) := split ▸ List.suffix_append newer _
    rcases List.suffix_or_suffix_of_suffix (fromB.trans saved.remembered) remembered' with
      kept | back
    · exact ⟨d', older', saved', b, kept.subset List.mem_cons_self, inView, view, reaches⟩
    · -- The crash goes back behind `b`, to a state that is on disk as well as `d`.
      have before := reach.earlier_of_suffix orderly inside (fromB.trans saved.remembered) back
      have after := reach.earlier_of_suffix orderly inside saved.remembered fromB
      have same : { d'.replica.persistentState with commitNumber := (c.nodes R).disk.commitNumber } =
          { d.replica.persistentState with commitNumber := (c.nodes R).disk.commitNumber } :=
        persisted.trans saved.persisted.symm
      have sameView : d'.replica.viewNumber = d.replica.viewNumber := congrArg (·.viewNumber) same
      have sameNormal : d'.replica.lastNormalView = d.replica.lastNormalView :=
        congrArg (·.lastNormalView) same
      have sameOps : d'.replica.opNumber = d.replica.opNumber :=
        congrArg (fun state => state.logStart + state.log.length) same
      have recalled := reach.remembered orderly lossless inside
      obtain ⟨awake, _, here⟩ := recalled b
        ((fromB.trans saved.remembered).subset List.mem_cons_self)
      have stays : d.replica.viewNumber = b.replica.viewNumber :=
        Nat.le_antisymm (sameView.ge.trans before.views) after.views
      obtain ⟨normal, longer⟩ := after.grows awake (here.mp inView) stays
      obtain ⟨_, _, here'⟩ := recalled d' (remembered'.subset List.mem_cons_self)
      refine ⟨d', older', saved', d', List.mem_cons_self, here'.mpr ?_, ?_, ?_⟩
      · rw [sameNormal, sameView]
        exact normal
      · rw [sameView, stays, view]
      · rw [sameOps]
        exact reaches.trans longer

theorem Cluster.Reach.saved {R : Nat} (inside : R < c.size) :
    ∃ d older, (c.nodes R).Saved d older := by
  induction reach with
  | start starts =>
      obtain ⟨machine, r, _, run, isNode⟩ := starts.nodes R inside
      rw [isNode]
      exact ⟨_, _, Node.saved_start run⟩
  | @step c c' before step ih =>
      cases step with
      | node S insideS step =>
          rename_i n'
          rcases eq_or_ne R S with rfl | other
          · simp only [Cluster.update, Function.update_self]
            obtain ⟨d, older, saved⟩ := ih inside
            obtain ⟨g, trails, w, ok, _⟩ := before.picture orderly
            obtain ⟨d', older', saved', _⟩ := step.saved orderly lossless (ok.nodes R insideS)
              (before.vouched orderly insideS) (before.saidMore insideS) saved
            exact ⟨d', older', saved'⟩
          · simp only [Cluster.update, Function.update_of_ne other]
            exact ih inside

/-- A disk vouches for whatever a write it is through with holds. -/
theorem Cluster.Reach.writesHold {R : Nat} (inside : R < c.size) {write : LogWrite (Input SM)}
    {landed : Bool} (isOut : (c.nodes R).out = some (write, landed))
    (durable : landed = true ∨ write.sync = false) :
    (c.nodes R).replica.WritesHold (c.nodes R).Vouches := by
  intro outstanding isOutstanding current reaches isDurable k within
  obtain ⟨d, older, saved⟩ := reach.saved orderly lossless inside
  obtain ⟨t, rest, taken, settled⟩ := saved.settled (reach.vouched orderly inside).inv
    (reach.saidMore inside) isOut durable
  obtain ⟨opNumber, normal⟩ := taken.outstanding outstanding isOutstanding
  have isMoment : t ∈ (c.nodes R).moments := taken.remembered.subset List.mem_cons_self
  obtain ⟨_, lastNormal, here⟩ := reach.remembered orderly lossless inside t isMoment
  have earlier := reach.earlier_of_suffix orderly inside
    (List.suffix_rfl : ((c.nodes R).now :: (c.nodes R).past) <:+ _) taken.remembered
  have views : t.replica.viewNumber ≤ (c.nodes R).replica.viewNumber := earlier.views
  refine ⟨t, rest, settled, t, List.mem_cons_self, here.mpr ?_, ?_, ?_⟩
  · omega
  · omega
  · have short : reaches ≤ outstanding.opNumber := by
      unfold WriteState.durableOp at isDurable
      split at isDurable
      · exact (Option.some.inj isDurable).ge
      · obtain ⟨before, _, same⟩ := Option.bind_eq_some_iff.mp isDurable
        exact (Option.some.inj same).ge.trans (Nat.min_le_left _ _)
    omega

end Orderly

/-! ## What a quorum backs -/

/-- What the primaries count is acknowledged or vouched for, a quorum backs what
is decided, and nobody had said anything of a view to begin with. -/
structure Stored (c : Cluster SM) (trails : Nat → TrailFor SM) (g : Ghost (Input SM)) : Prop where
  acks : ∀ R < c.size,
    OwnAcks (netOf c.config (sentOf c)) R (c.nodes R).Vouches (c.nodes R).replica.peer
  marks : ∀ y j, (y, j) ∈ g.marks → 0 < j → ∃ Q : Finset Nat, c.config.quorums.IsQuorum Q ∧
    ∀ S ∈ Q, Acknowledged (netOf c.config (sentOf c)) S y j ∨ (c.nodes S).Vouches y j
  roots : ∀ R < c.size, ∀ first, [first] <:+ trails R → ∀ envelope ∈ first.said,
    envelope.2.stamp = none

theorem Node.Vouches.less {n : Node SM} {v k m : Nat} (vouches : n.Vouches v m) (less : k ≤ m) :
    n.Vouches v k := by
  obtain ⟨d, older, saved, b, mem, inView, view, reaches⟩ := vouches
  exact ⟨d, older, saved, b, mem, inView, view, less.trans reaches⟩

theorem Acknowledged.less {Op Query Chunk : Type} {net : Set (Nat × Message Op Query Chunk)}
    {S v k m : Nat} (acked : Acknowledged net S v m) (less : k ≤ m) : Acknowledged net S v k := by
  obtain ⟨receiver, opNumber, within, sent⟩ := acked
  exact ⟨receiver, opNumber, less.trans within, sent⟩

theorem Stored.step {setting : Setting SM} {asks : MessageFor SM → Prop} {c : Cluster SM}
    (orderly : setting.orderly) (lossless : ¬setting.diskLoss)
    (reach : Cluster.Reach setting asks c) {trails : Nat → TrailFor SM} {g : Ghost (Input SM)}
    (ok : ClusterOk c trails g) (grounded : g.Grounded) (stored : Stored c trails g) {R : Nat}
    (inside : R < c.size) {n' : Node SM}
    (step : Node.Step setting (c.hears asks R) (c.nodes R) n') :
    ∃ g' trail', g'.Grounded ∧ ClusterOk (c.update R n') (Function.update trails R trail') g' ∧
      Stored (c.update R n') (Function.update trails R trail') g' := by
  obtain ⟨g', trail', goes, root⟩ :=
    ok.step orderly grounded inside (stored.acks R inside)
      (fun _ _ isOut durable => reach.writesHold orderly lossless inside isOut durable) step
  have more : netOf c.config (sentOf c) ⊆ netOf c.config (sentOf (c.update R n')) := by
    rintro envelope ⟨S, insideS, mem⟩
    refine ⟨S, insideS, ?_⟩
    rcases eq_or_ne S R with rfl | other
    · have now : envelope ∈ n'.sent := step.sent mem
      simpa [sentOf, Cluster.update] using now
    · simpa [sentOf, Cluster.update, Function.update_of_ne other] using mem
  have vouches : ∀ {S v k}, (c.nodes S).Vouches v k → ((c.update R n').nodes S).Vouches v k := by
    intro S v k held
    rcases eq_or_ne S R with rfl | other
    · simp only [Cluster.update, Function.update_self]
      exact reach.vouches orderly lossless inside step held
    · simp only [Cluster.update, Function.update_of_ne other]
      exact held
  have keeps : ∀ {S v k}, Acknowledged (netOf c.config (sentOf c)) S v k ∨ (c.nodes S).Vouches v k →
      Acknowledged (netOf c.config (sentOf (c.update R n'))) S v k ∨
        ((c.update R n').nodes S).Vouches v k :=
    fun held => held.imp (.mono more) vouches
  refine ⟨g', trail', goes.grounded, ok.goes inside goes, fun S insideS => ?_, fun y j mark pos => ?_,
    fun S insideS first isFirst => ?_⟩
  · intro inView isPrimary k counted positive
    have acks : OwnAcks (netOf c.config (sentOf c)) S (c.nodes S).Vouches
        ((c.update R n').nodes S).replica.peer := by
      rcases eq_or_ne S R with rfl | other
      · simp only [Cluster.update, Function.update_self]
        exact goes.backed.acks
      · simp only [Cluster.update, Function.update_of_ne other]
        exact stored.acks S insideS
    exact (keeps (acks inView isPrimary k counted positive).symm).symm
  · rcases goes.backed.marks y j mark with before | ⟨acked, k, within, each, quorum, counted⟩
    · obtain ⟨Q, isQuorum, all⟩ := stored.marks y j before pos
      exact ⟨Q, isQuorum, fun S mem => keeps (all S mem)⟩
    · refine ⟨acknowledgers acked k, ⟨fun S mem => ?_, ?_⟩, fun S mem => ?_⟩
      · have := (Finset.mem_filter.mp mem).1
        rw [show (c.update R n').config = c.config from rfl, ← each]
        exact Finset.mem_range.mp this
      · rw [card_acknowledgers]
        exact quorum
      · obtain ⟨isIn, reaches⟩ := Finset.mem_filter.mp mem
        have found : acked[S]? = some (acked.getD S 0) := by
          have within : S < acked.length := Finset.mem_range.mp isIn
          simp [within]
        refine keeps ?_
        rcases counted S _ found (by omega) with ⟨rfl, held⟩ | acknowledged
        · exact .inr (held.less (within.trans reaches))
        · exact .inl (acknowledged.less (within.trans reaches))
  · rcases eq_or_ne S R with rfl | other
    · rw [Function.update_self] at isFirst
      exact stored.roots S insideS first (root lossless first isFirst)
    · rw [Function.update_of_ne other] at isFirst
      exact stored.roots S insideS first isFirst

theorem Cluster.Reach.stored {setting : Setting SM} {asks : MessageFor SM → Prop} {c : Cluster SM}
    (orderly : setting.orderly) (lossless : ¬setting.diskLoss)
    (reach : Cluster.Reach setting asks c) :
    ∃ g trails, g.Grounded ∧ ClusterOk c trails g ∧ Stored c trails g := by
  induction reach with
  | @start c starts =>
      obtain ⟨grounded, trails, ok⟩ := Tracked.start starts
      refine ⟨_, trails, grounded, ok, fun R inside => ?_, fun y j mark => mark.elim,
        fun R inside first isFirst envelope mem => ?_⟩
      · obtain ⟨machine, r, _, run, isNode⟩ := starts.nodes R inside
        obtain ⟨_, newborn, _⟩ := Replica.new_newborn run
        rw [isNode]
        exact ownAcks_zero newborn.acked.2
      · by_contra stamped
        obtain ⟨machine, r, _, _, isNode⟩ := starts.nodes R inside
        have isSent := ((ok.worlds.rooted R inside).suffix isFirst).1 envelope mem stamped
        rw [sentOf, isNode] at isSent
        cases isSent
  | step before step ih =>
      obtain ⟨g, trails, grounded, ok, stored⟩ := ih
      cases step with
      | node R inside step =>
          obtain ⟨g', trail', grounded', ok', stored'⟩ :=
            stored.step orderly lossless before ok grounded inside step
          exact ⟨g', _, grounded', ok', stored'⟩

/-! ## What disks hold -/

section Holds
variable {c : Cluster SM} {trails : Nat → TrailFor SM} {g : Ghost (Input SM)}

/-- A state on disk is on the trail, and so is whatever is behind what the disk
vouches for or the replica has acknowledged. -/
theorem Stored.backed (stored : Stored c trails g) (ok : ClusterOk c trails g) {R : Nat}
    (inside : R < c.size) {y j : Nat}
    (backs : Acknowledged (netOf c.config (sentOf c)) R y j ∨ (c.nodes R).Vouches y j)
    (saved : ∃ d older, (c.nodes R).Saved d older) :
    ∃ d s rest, (s :: rest) <:+ trails R ∧ d ∈ (c.nodes R).moments ∧ d.Persisted (c.nodes R).disk ∧
      s.peer = d.replica.peer ∧ ∃ before ∈ s :: rest,
        before.peer.inView ∧ before.peer.viewNumber = y ∧ j ≤ before.peer.opNumber := by
  have onTrail : ∀ {d older}, (c.nodes R).Saved d older →
      ∃ s rest, (s :: rest) <:+ trails R ∧ d.Is s ∧ Traces (d :: older) (s :: rest) := by
    intro d older saved
    obtain ⟨newer, split⟩ := saved.remembered
    have traces := (ok.nodes R inside).traces
    rw [← split] at traces
    exact traces.back
  rcases backs with ⟨receiver, opNumber, within, S, insideS, isSent⟩ | vouches
  · obtain ⟨d, older, saved⟩ := saved
    obtain ⟨s, rest, isSuffix, is, _⟩ := onTrail saved
    -- An acknowledgement is sent by whom it names.
    have isAuthor : R = S := by
      have nonempty : Nonempty (SpeakerFor SM) := ⟨s⟩
      obtain ⟨system, olders, choice, _⟩ := ok.worlds.newest
      obtain ⟨w, began, _, _, isOk, _⟩ := ok.worlds.worlds system olders choice
      have mem := choice.said S insideS _ isSent (by simp [Message.stamp])
      exact (isOk.speakers S insideS).said.authored _ mem R rfl
    subst isAuthor
    have mem : (receiver, .prepareOk y opNumber R) ∈ s.said :=
      is.said _ (saved.left _ (.inl isSent) rfl) (by simp [Message.stamp])
    have rooted := (ok.worlds.rooted R inside).suffix isSuffix
    rcases rooted.truth mem with ⟨first, isFirst, mem⟩ | ⟨before, isBefore, i, truthful⟩
    · cases stored.roots R inside first (isFirst.trans isSuffix) _ mem
    · obtain ⟨status, view, isOp, _⟩ := truthful
      exact ⟨d, s, rest, isSuffix, saved.remembered.subset List.mem_cons_self, saved.persisted,
        is.peer, before, isBefore, .inl status, view.symm, isOp ▸ within⟩
  · obtain ⟨d, older, saved, b, mem, inView, view, reaches⟩ := vouches
    obtain ⟨s, rest, isSuffix, is, traces⟩ := onTrail saved
    obtain ⟨before, _, onRest, isBefore⟩ := traces.mem mem
    refine ⟨d, s, rest, isSuffix, saved.remembered.subset List.mem_cons_self, saved.persisted,
      is.peer, before, onRest.subset List.mem_cons_self, ?_⟩
    rw [isBefore.peer]
    exact ⟨inView, view, reaches⟩

end Holds

/-- As long as no disk is lost, a quorum of disks holds every op that is committed,
in the log or in what the state machine has durable. -/
theorem Cluster.durability {setting : Setting SM} (orderly : setting.orderly)
    (lossless : ¬setting.diskLoss) {asks : MessageFor SM → Prop} {c : Cluster SM}
    (reach : Cluster.Reach setting asks c) {opNumber : Nat} {entry : EntryFor SM}
    (committed : c.Committed opNumber entry) :
    ∃ Q : Finset Nat, c.config.quorums.IsQuorum Q ∧
      ∀ R ∈ Q, (c.nodes R).disk.recovering = false ∧ (c.nodes R).Holds opNumber entry := by
  obtain ⟨g, trails, grounded, ok, stored⟩ := reach.stored orderly lossless
  have nonempty : Nonempty (SpeakerFor SM) := by
    have several := ok.several
    obtain ⟨s, _⟩ := (ok.nodes 0 (by omega)).head
    exact ⟨s⟩
  obtain ⟨system, olders, choice, isTrail⟩ := ok.worlds.newest
  obtain ⟨w, began, isDecided, isMarks, isOk, history, _⟩ := ok.worlds.worlds system olders choice
  have tracked : Tracked c g := ⟨grounded, trails, ok⟩
  obtain ⟨pos, isEntry⟩ := tracked.committed committed
  obtain ⟨y, m, mark, within⟩ := ok.marked pos committed
  obtain ⟨Q, isQuorum, all⟩ := stored.marks y m mark (pos.trans_le within)
  refine ⟨Q, isQuorum, fun R mem => ?_⟩
  have inside : R < c.size := isQuorum.1 R mem
  obtain ⟨d, s, rest, isSuffix, isMoment, persisted, isPeer, before, isBefore, inView, view, reaches⟩ :=
    stored.backed ok inside (all R mem) (reach.saved orderly lossless inside)
  have awake : d.replica.status ≠ .recovering := reach.awake orderly lossless inside d isMoment
  have isAwake : (c.nodes R).disk.recovering = false := by
    rw [← persisted]
    exact decide_eq_false awake
  have past : HistoryOk c.config w R (s :: rest) := by
    refine (history R inside).suffix ?_
    rwa [← isTrail R inside]
  -- The disk holds whatever was chosen of the view.
  have chosen : w.Chosen c.config.quorums y (w.decided.take opNumber) := by
    have := (isOk.valid.marked y m (isMarks ▸ mark)).2.take opNumber
    rwa [List.take_take, Nat.min_eq_left within] at this
  have start := past.logStart_le
  have holds : w.decided.take opNumber <+: d.replica.peer.whole w.decided := by
    rw [← isPeer]
    refine chosen.prefix_of_covers fun k inTake => ?_
    rw [← view]
    refine past.2.2.1 (by rwa [isPeer]) before isBefore inView k ?_
    rw [Standing.length_whole (start before isBefore)]
    have := inTake.trans_le (List.length_take_le _ _)
    omega
  refine ⟨isAwake, ?_⟩
  by_cases later : (c.nodes R).disk.logStart < opNumber
  · right
    have beyond : d.replica.logStart < opNumber := by
      have same : d.replica.logStart = (c.nodes R).disk.logStart := congrArg (·.logStart) persisted
      omega
    have isStart : d.replica.logStart ≤ w.decided.length := by
      have := start s List.mem_cons_self
      rwa [isPeer] at this
    have isTaken : (w.decided.take opNumber)[opNumber - 1]? = some entry := by
      rw [List.getElem?_take_of_lt (by omega), isDecided, isEntry]
    rw [persisted.entry, Standing.entry_whole isStart beyond]
    exact getElem?_of_prefix holds isTaken
  · left
    have := (ok.nodes R inside).disk.start
    omega

/-- Client 7 is registered, and a quorum of disks holds that. -/
theorem Accumulator.durability_registers : ∃ c : Cluster Accumulator,
    c.Committed 1 (.register 7) ∧ ∃ Q : Finset Nat, c.config.quorums.IsQuorum Q ∧
      ∀ R ∈ Q, (c.nodes R).disk.recovering = false ∧ (c.nodes R).Holds 1 (.register 7) := by
  have evaluated : ((three.play (spares true false) registers).map fun c => clientAt c 0 1) =
      some (some 7) := by
    decide +kernel
  obtain ⟨c, run, isClient⟩ := Option.map_eq_some_iff.mp evaluated
  have committed := clientAt_committed isClient
  exact ⟨c, committed, Cluster.durability rfl Bool.false_ne_true
    ((three_reach true false).runs (Cluster.play_runs (spares_fit true false) run)) committed⟩

end Vsr
