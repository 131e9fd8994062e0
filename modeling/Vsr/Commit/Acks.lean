import Vsr.Accumulator
import Vsr.Commit.Replies

/-!
# The acknowledgements of a view

While nothing is appended, a primary commits what a quorum has acknowledged, in
whatever order and however often it is told, and replies to each op it commits once
that op is durable.
-/

set_option autoImplicit false

namespace Vsr.Replica

variable {SM : Type} [StateMachine SM] {r r' s : Replica SM}

/-- What reaches a primary while nothing is appended: a backup acknowledges an op, or
its own write is taken, and handed back. -/
inductive Event
  | prepareOk (opNumber replicaId : Nat)
  | take
  | handBack (sequence : Nat)
  deriving DecidableEq

inductive Receives : Replica SM → Event → Replica SM → Prop
  | prepareOk {r r' : Replica SM} {opNumber replicaId : Nat}
      (run : r.onMessage (.prepareOk r.viewNumber opNumber replicaId) = some r') :
      Receives r (.prepareOk opNumber replicaId) r'
  | take {r r' : Replica SM} {write : LogWrite (Input SM)} (run : r.takeWrite = some (r', write)) :
      Receives r .take r'
  | handBack {r r' : Replica SM} {sequence : Nat} (write : LogWrite (Input SM))
      (isWrite : write.sequence = sequence) (run : r.persisted write = some r') :
      Receives r (.handBack sequence) r'

/-- A primary in state `s` receives `events`. -/
inductive Hears (s : Replica SM) : List Event → Replica SM → Prop
  | start : Hears s [] s
  | next {events : List Event} {event : Event} {r r' : Replica SM} (before : Hears s events r)
      (receives : Receives r event r') : Hears s (events ++ [event]) r'

/-- What the primary acknowledges itself when the write numbered `sequence` is handed
back: all of its log if the write is taken from now on. -/
def ownAck (s : Replica SM) (sequence : Nat) : Option Nat :=
  match s.outstanding.filter (·.sequence = sequence) with
  | some out => if out.lastNormalView = s.viewNumber then (s.handedBack out).durableOp else none
  | none => if s.lastNormalView = s.viewNumber then some s.opNumber else none

/-- The replica an event acknowledges an op for, and the op. -/
def ack (s : Replica SM) : Event → Option (Nat × Nat)
  | .prepareOk opNumber replicaId => some (replicaId, opNumber)
  | .take => none
  | .handBack sequence => (s.ownAck sequence).map fun opNumber => (s.selfId, opNumber)

def acks (s : Replica SM) (events : List Event) : List (Nat × Nat) := events.filterMap s.ack

/-- Replica `j` had acknowledged op `k` or a later one before, or does so now. -/
def Acknowledged (s : Replica SM) (events : List Event) (j k : Nat) : Prop :=
  k ≤ (s.acked[j]?).getD 0 ∨ ∃ ack ∈ s.acks events, ack.1 = j ∧ k ≤ ack.2

instance (s : Replica SM) (events : List Event) (j k : Nat) : Decidable (s.Acknowledged events j k) :=
  inferInstanceAs (Decidable (_ ∨ _))

/-- How many replicas have acknowledged op `k` or a later one. -/
def backers (s : Replica SM) (events : List Event) (k : Nat) : Nat :=
  (List.range s.config.replicas.length).countP fun j => s.Acknowledged events j k

/-- The log holds `entry` as op `k`, and did so on disk by then. -/
def Held (s : Replica SM) (events : List Event) (k : Nat) (entry : EntryFor SM) : Prop :=
  s.entry k = some entry ∧ ∃ before m durable, before <+: events ∧ Hears s before m ∧
    m.durableOp = some durable ∧ k ≤ durable

/-! ## The marks -/

/-- `r` is `s` with `acks` counted. -/
structure Marked (s : Replica SM) (acks : List (Nat × Nat)) (r : Replica SM) : Prop where
  core : r.toCore = { s.toCore with
    toWriteState := r.toWriteState, acked := r.acked, replyRanges := r.replyRanges
    commitNumber := r.commitNumber, applied := r.applied }
  length : r.acked.length = s.acked.length
  marks : ∀ j k, j < s.acked.length → (k ≤ (r.acked[j]?).getD 0 ↔
    k ≤ (s.acked[j]?).getD 0 ∨ k ≤ s.opNumber ∧ ∃ ack ∈ acks, ack.1 = j ∧ k ≤ ack.2)
  since : s.commitNumber ≤ r.commitNumber
  upTo : r.commitNumber ≤ max s.commitNumber (quorumMark s.config.quorum r.acked)

namespace Marked

variable {acks : List (Nat × Nat)} {replicaId opNumber : Nat}

theorem start (s : Replica SM) : Marked s [] s where
  core := rfl
  length := rfl
  marks j k _ := by simp
  since := le_rfl
  upTo := le_max_left _ _

theorem op (marked : Marked s acks r) : r.opNumber = s.opNumber := by
  rw [marked.core]
  rfl

theorem entry (marked : Marked s acks r) (k : Nat) : r.entry k = s.entry k := by
  rw [marked.core]
  rfl

theorem still (marked : Marked s acks r)
    (core : r'.toCore = { r.toCore with
      toWriteState := r'.toWriteState, replyRanges := r'.replyRanges, applied := r'.applied }) :
    Marked s acks r' := by
  have acked : r'.acked = r.acked := by rw [core]
  have committed : r'.commitNumber = r.commitNumber := by rw [core]
  refine ⟨?_, ?_, ?_, ?_, ?_⟩
  · rw [core, marked.core]
  · rw [acked]
    exact marked.length
  · rw [acked]
    exact marked.marks
  · rw [committed]
    exact marked.since
  · rw [acked, committed]
    exact marked.upTo

/-- An acknowledgement for no replica changes nothing. -/
theorem ignore (marked : Marked s acks r) (outside : s.acked.length ≤ replicaId) :
    Marked s (acks ++ [(replicaId, opNumber)]) r := by
  refine ⟨marked.core, marked.length, fun j k inside => ?_, marked.since, marked.upTo⟩
  rw [marked.marks j k inside]
  apply or_congr_right
  apply and_congr_right
  intro _
  have other : replicaId ≠ j := by omega
  simp only [List.mem_append, List.mem_singleton, or_and_right, exists_or, exists_eq_left]
  rw [or_iff_left]
  exact fun same => other same.1

theorem set_marks {mark bound k : Nat} {marks : List Nat} (isMark : marks[replicaId]? = some mark)
    (later : mark < min opNumber bound) (j : Nat) :
    k ≤ ((marks.set replicaId (min opNumber bound))[j]?).getD 0 ↔
      k ≤ (marks[j]?).getD 0 ∨ k ≤ bound ∧ replicaId = j ∧ k ≤ opNumber := by
  rw [List.getElem?_set]
  split
  · next same =>
    subst same
    rw [if_pos (List.getElem?_eq_some_iff.mp isMark).1, isMark, Option.getD_some, Option.getD_some]
    omega
  · next other =>
    rw [or_iff_left]
    exact fun same => other same.2.1

theorem covered_marks {mark bound k : Nat} {marks : List Nat}
    (isMark : marks[replicaId]? = some mark) (covered : min opNumber bound ≤ mark) (j : Nat) :
    k ≤ (marks[j]?).getD 0 ↔
      k ≤ (marks[j]?).getD 0 ∨ k ≤ bound ∧ replicaId = j ∧ k ≤ opNumber := by
  refine (or_iff_left_of_imp ?_).symm
  rintro ⟨inside, rfl, reached⟩
  rw [isMark, Option.getD_some]
  omega

theorem count (marked : Marked s acks r)
    (enough : 0 < s.config.quorum ∧ s.config.quorum ≤ s.acked.length)
    (run : r.registerAck replicaId opNumber = some r') :
    Marked s (acks ++ [(replicaId, opNumber)]) r' := by
  obtain ⟨mark, isMark, cases⟩ := registerAck_cases run
  rw [marked.op] at cases
  -- The marks now are the marks before, and the one this acknowledgement sets.
  have more : ∀ {marks : List Nat}, (∀ j k, k ≤ (marks[j]?).getD 0 ↔
      k ≤ (r.acked[j]?).getD 0 ∨ k ≤ s.opNumber ∧ replicaId = j ∧ k ≤ opNumber) →
      ∀ j k, j < s.acked.length → (k ≤ (marks[j]?).getD 0 ↔ k ≤ (s.acked[j]?).getD 0 ∨
        k ≤ s.opNumber ∧ ∃ ack ∈ acks ++ [(replicaId, opNumber)], ack.1 = j ∧ k ≤ ack.2) := by
    intro marks set j k inside
    rw [set j k, marked.marks j k inside, or_assoc, ← and_or_left]
    simp only [List.mem_append, List.mem_singleton, or_and_right, exists_or, exists_eq_left]
  rcases cases with ⟨covered, rfl⟩ | ⟨later, run⟩
  · exact ⟨marked.core, marked.length, more fun j k => covered_marks isMark covered j, marked.since,
      marked.upTo⟩
  · have core := (commitUpTo_executed run).core
    have commits := commitUpTo_commits run
    have acked : r'.acked = r.acked.set replicaId (min opNumber s.opNumber) := by rw [core]
    have quorum : r.config.quorum = s.config.quorum := by rw [marked.core]
    rw [quorum] at commits
    refine ⟨?_, ?_, ?_, ?_, ?_⟩
    · have writes : r'.toWriteState = r.toWriteState := by rw [core]
      rw [acked, writes]
      refine core.trans ?_
      show ({ r.toCore with
        acked := r.acked.set replicaId (min opNumber s.opNumber)
        commitNumber := r'.commitNumber, applied := r'.applied
        replyRanges := r'.replyRanges } : Core (Input SM)) = _
      rw [marked.core]
    · rw [acked, List.length_set]
      exact marked.length
    · rw [acked]
      exact more fun j k => set_marks isMark later j
    · rw [commits]
      exact marked.since.trans (le_max_left _ _)
    · rw [commits, acked]
      refine max_le (marked.upTo.trans (max_le_max_left _ ?_)) (le_max_right _ _)
      exact quorumMark_set enough.1 (enough.2.trans marked.length.ge) isMark later.le

/-- As many marks reach an op of the log as replicas have acknowledged it. -/
theorem reaching {events : List Event} {k : Nat} (marked : Marked s (s.acks events) r)
    (several : s.acked.length = s.config.replicas.length) (inside : k ≤ s.opNumber) :
    reaching r.acked k = s.backers events k := by
  rw [reaching_places, marked.length, several]
  refine List.countP_congr fun j mem => ?_
  have isReplica := (List.mem_range.mp mem).trans_le several.ge
  rw [decide_eq_true_eq, decide_eq_true_eq, marked.marks j k isReplica]
  unfold Acknowledged
  rw [and_iff_right inside]

/-- No acknowledgement counts beyond the log. -/
theorem reaching_beyond {k : Nat} (marked : Marked s acks r) (beyond : s.opNumber < k) :
    Replica.reaching r.acked k = Replica.reaching s.acked k := by
  rw [reaching_places, reaching_places, marked.length]
  refine List.countP_congr fun j mem => ?_
  rw [decide_eq_true_eq, decide_eq_true_eq, marked.marks j k (List.mem_range.mp mem)]
  refine or_iff_left fun within => ?_
  omega

/-- What is committed is what was, or the last op that a quorum has acknowledged. -/
theorem commits {events : List Event} (marked : Marked s (s.acks events) r)
    (counting : s.Counting) (inView : s.InView) (counting' : r.Counting) (inView' : r.InView) :
    ∃ best, IsGreatest { k | k ≤ s.opNumber ∧ s.config.quorum ≤ s.backers events k } best ∧
      r.commitNumber = max s.commitNumber best := by
  obtain ⟨pos, enough⟩ := counting.enough
  have enough' : s.config.quorum ≤ r.acked.length := enough.trans marked.length.ge
  have config : r.config = s.config := by rw [marked.core]
  have all : s.config.quorum ≤ s.backers events 0 := by
    rw [← marked.reaching counting.length (Nat.zero_le _), reaching_zero]
    exact enough'
  set best := Nat.findGreatest (fun k => s.config.quorum ≤ s.backers events k) s.opNumber with isBest
  have inside : best ≤ s.opNumber := Nat.findGreatest_le _
  have backed : s.config.quorum ≤ s.backers events best :=
    Nat.findGreatest_spec (P := fun k => s.config.quorum ≤ s.backers events k) (Nat.zero_le _) all
  have greatest : IsGreatest { k | s.config.quorum ≤ Replica.reaching r.acked k } _ :=
    quorumMark_greatest pos enough'
  refine ⟨best, ⟨⟨inside, backed⟩, fun k backed => ?_⟩, le_antisymm ?_ (max_le marked.since ?_)⟩
  · exact Nat.le_findGreatest backed.1 backed.2
  · refine marked.upTo.trans (max_le (le_max_left _ _) ?_)
    have reached : s.config.quorum ≤ Replica.reaching r.acked _ := greatest.1
    by_cases within : quorumMark s.config.quorum r.acked ≤ s.opNumber
    · rw [marked.reaching counting.length within] at reached
      exact (Nat.le_findGreatest within reached).trans (le_max_right _ _)
    · -- Marks beyond the log were there from the start.
      rw [marked.reaching_beyond (not_le.mp within)] at reached
      have before := (quorumMark_greatest pos enough).2 reached
      exact (before.trans (counting.committed inView)).trans (le_max_left _ _)
  · rw [← marked.reaching counting.length inside] at backed
    have committed := counting'.committed inView'
    rw [config] at committed
    exact (greatest.2 backed).trans committed

end Marked

/-! ## Executing what is durable -/

/-- If anything has been committed since `s`, what is committed and durable has
executed. -/
def CaughtUp (s r : Replica SM) : Prop :=
  r.commitNumber = s.commitNumber ∨
    ∀ durable, r.durableOp = some durable → min r.commitNumber durable ≤ r.applied

theorem CaughtUp.same (caught : CaughtUp s r) (committed : r'.commitNumber = r.commitNumber)
    (durable : r'.durableOp = r.durableOp) (applied : r'.applied = r.applied) : CaughtUp s r' := by
  unfold CaughtUp
  rw [committed, durable, applied]
  exact caught

theorem applyCommitted_catches {durable : Nat} (isDurable : r.durableOp = some durable)
    (run : r.applyCommitted durable = some r') : CaughtUp s r' := by
  obtain ⟨executed, committed, applied⟩ := applyCommitted_executed run
  right
  intro durable' isDurable'
  have same : r'.durableOp = r.durableOp := by rw [executed.core]
  cases (same.symm.trans isDurable').symm.trans isDurable
  rw [committed, applied]
  omega

theorem registerAck_writes {replicaId opNumber : Nat}
    (run : r.registerAck replicaId opNumber = some r') : r'.toWriteState = r.toWriteState := by
  obtain ⟨mark, _, ⟨_, rfl⟩ | ⟨_, run⟩⟩ := registerAck_cases run
  · rfl
  · rw [(commitUpTo_executed run).core]

theorem CaughtUp.count {replicaId opNumber : Nat} (caught : CaughtUp s r)
    (run : r.registerAck replicaId opNumber = some r') : CaughtUp s r' := by
  obtain ⟨mark, _, ⟨_, rfl⟩ | ⟨_, run⟩⟩ := registerAck_cases run
  · exact caught
  · rcases commitUpTo_cases run with ⟨_, rfl⟩ | ⟨_, durable, isDurable, apply⟩
    · exact caught.same rfl rfl rfl
    · refine applyCommitted_catches ?_ apply
      exact isDurable

/-- A replica that counts an acknowledgement has served what it makes execute. -/
theorem Replied.count {may : Nat → EntryFor SM → Prop} {served : List (Nat × Reply (Output SM))}
    {replicaId opNumber : Nat} (replied : Replied may s r served) (counting : r.Counting)
    (view : r.viewNumber = s.viewNumber) (since : s.commitNumber ≤ r.commitNumber)
    (run : r.registerAck replicaId opNumber = some r')
    (allowed : ∀ k entry durable, r.entry k = some entry → r.durableOp = some durable →
      k ≤ durable → may k entry) :
    ∃ served', Replied may s r' served' := by
  obtain ⟨mark, _, ⟨_, rfl⟩ | ⟨_, run⟩⟩ := registerAck_cases run
  · exact ⟨served, replied⟩
  · have counted : Replied may s
        { r with acked := r.acked.set replicaId (min opNumber r.opNumber) } served :=
      replied.same rfl rfl rfl rfl rfl
    exact counted.commit view since counting.ranges run allowed

/-! ## Along the events -/

theorem acks_append (s : Replica SM) (events : List Event) (event : Event) :
    s.acks (events ++ [event]) = s.acks events ++ (s.ack event).toList := by
  unfold acks
  rw [List.filterMap_append]
  cases isAck : s.ack event with
  | none => simp [isAck]
  | some ack => simp [isAck]

theorem Held.more {events : List Event} {event : Event} {k : Nat} {entry : EntryFor SM}
    (held : s.Held events k entry) : s.Held (events ++ [event]) k entry := by
  obtain ⟨isEntry, before, m, durable, leads, hears, isDurable, inside⟩ := held
  exact ⟨isEntry, before, m, durable, leads.trans (List.prefix_append _ _), hears, isDurable, inside⟩

/-- What holds of a primary that has received `events` since it was in state `s`. -/
structure Counted (s : Replica SM) (events : List Event) (r : Replica SM) : Prop where
  began : s.Reached
  reached : r.Reached
  marked : Marked s (s.acks events) r
  caught : CaughtUp s r
  replied : ∃ served, Replied (s.Held events) s r served
  writes : s.writes ≤ r.writes
  /-- The write that is out was so already, or has been taken since. -/
  out : ∀ out, r.outstanding = some out →
    (s.outstanding = some out ∧ r.logChangedFrom = s.logChangedFrom) ∨
      (s.writes < out.sequence ∧ out.opNumber = s.opNumber ∧
        out.lastNormalView = s.lastNormalView ∧ r.logChangedFrom = none)

namespace Counted

variable {events : List Event}

theorem start (reached : s.Reached) : Counted s [] s where
  began := reached
  reached := reached
  marked := .start s
  caught := .inl rfl
  replied := ⟨[], .start s⟩
  writes := le_rfl
  out _ isOut := .inl ⟨isOut, rfl⟩

theorem view (counted : Counted s events r) : r.viewNumber = s.viewNumber := by
  rw [counted.marked.core]

theorem take {write : LogWrite (Input SM)} (counted : Counted s events r)
    (run : r.takeWrite = some (r', write)) : Counted s (events ++ [.take]) r' := by
  have reached' : r'.Reached := .take counted.reached run
  obtain ⟨free, run⟩ := require_eq_some.mp run
  obtain ⟨durable, isDurable, run⟩ := Option.bind_eq_some_iff.mp run
  cases run
  obtain ⟨served, replied⟩ := counted.replied
  refine ⟨counted.began, reached', ?_, counted.caught.same rfl isDurable.symm rfl, ⟨served, ?_⟩, ?_,
    ?_⟩
  · rw [acks_append]
    exact (List.append_nil _).symm ▸ counted.marked.still rfl
  · exact (replied.mono fun k entry => Held.more).same rfl rfl rfl rfl rfl
  · exact counted.writes.trans (Nat.le_succ _)
  · intro out isOut
    cases isOut
    refine .inr ⟨Nat.lt_succ_of_le counted.writes, counted.marked.op, ?_, rfl⟩
    show r.lastNormalView = s.lastNormalView
    rw [counted.marked.core]

theorem prepareOk {opNumber replicaId : Nat} (counted : Counted s events r)
    (normal : s.status = .normal) (primary : s.isPrimary) (hears : Hears s events r)
    (run : r.onMessage (.prepareOk r.viewNumber opNumber replicaId) = some r') :
    Counted s (events ++ [.prepareOk opNumber replicaId]) r' := by
  have reached' : r'.Reached := .message counted.reached _ run
  have counting := counted.reached.steady.counting
  have marked := counted.marked
  have status : r.status = .normal := by
    rw [marked.core]
    exact normal
  have leads : r.isPrimary := by
    rw [marked.core]
    exact primary
  obtain ⟨served, replied⟩ := counted.replied
  replace replied : Replied (s.Held (events ++ [.prepareOk opNumber replicaId])) s r served :=
    replied.mono fun k entry => Held.more
  have isAcks : s.acks (events ++ [.prepareOk opNumber replicaId]) =
      s.acks events ++ [(replicaId, opNumber)] := acks_append s events _
  unfold onMessage at run
  rw [if_neg fun asleep => by cases status.symm.trans asleep.1] at run
  dsimp only [onPrepareOk] at run
  split at run
  · next outside =>
    cases run
    have none : s.acked.length ≤ replicaId := by
      rw [← marked.length]
      simpa [leads, status] using outside
    exact ⟨counted.began, reached', isAcks ▸ marked.ignore none, counted.caught, ⟨served, replied⟩,
      counted.writes, counted.out⟩
  · have counted' := marked.count counted.began.steady.counting.enough run
    have writes := registerAck_writes run
    refine ⟨counted.began, reached', isAcks ▸ counted', counted.caught.count run, ?_, ?_, ?_⟩
    · refine replied.count counting counted.view marked.since run ?_
      intro k entry durable isEntry isDurable inside
      exact ⟨(marked.entry k).symm.trans isEntry, events, r, durable, List.prefix_append _ _, hears,
        isDurable, inside⟩
    · rw [writes]
      exact counted.writes
    · rw [writes]
      exact counted.out

/-- The write handed back is acknowledged as far as it holds the log. -/
theorem own {out : Outstanding} {durable : Nat} (counted : Counted s events r)
    (isOut : r.outstanding = some out) (isDurable : (r.handedBack out).durableOp = some durable) :
    s.ownAck out.sequence = if out.lastNormalView = s.viewNumber then some durable else none := by
  unfold ownAck
  rcases counted.out out isOut with ⟨before, changed⟩ | ⟨later, last, normal, unchanged⟩
  · have same : (s.handedBack out).durableOp = (r.handedBack out).durableOp := by
      show WriteState.durableOp _ = WriteState.durableOp _
      unfold WriteState.durableOp handedBack
      rw [changed]
    rw [before, Option.filter_some, if_pos (by simp)]
    dsimp only
    rw [same, isDurable]
  · have none : s.outstanding.filter (fun o => o.sequence = out.sequence) = none := by
      refine Option.filter_eq_none_iff.mpr fun o isBefore => ?_
      have := counted.began.steady.numbered o isBefore
      rw [decide_eq_true_eq]
      omega
    have all : durable = out.opNumber := by
      replace isDurable : WriteState.durableOp _ = some durable := isDurable
      unfold WriteState.durableOp handedBack at isDurable
      rw [unchanged] at isDurable
      exact (Option.some.inj isDurable).symm
    rw [none, all, normal, last]

theorem handBack {write : LogWrite (Input SM)} (counted : Counted s events r)
    (normal : s.status = .normal) (primary : s.isPrimary) (hears : Hears s events r)
    (run : r.persisted write = some r') :
    Counted s (events ++ [.handBack write.sequence]) r' := by
  have reached' : r'.Reached := .handBack counted.reached write run
  have hears' : Hears s (events ++ [.handBack write.sequence]) r' :=
    .next hears (.handBack write rfl run)
  obtain ⟨out, isOut, run⟩ := Option.bind_eq_some_iff.mp run
  obtain ⟨sequence, run⟩ := require_eq_some.mp run
  obtain ⟨durable, isDurable, run⟩ := Option.bind_eq_some_iff.mp run
  obtain ⟨acked, own, run⟩ := Option.bind_eq_some_iff.mp run
  obtain ⟨applied, apply, run⟩ := Option.bind_eq_some_iff.mp run
  cases run
  replace isDurable : (r.handedBack out).durableOp = some durable := isDurable
  replace own : (r.handedBack out).ackOwn out.lastNormalView durable = some acked := own
  obtain ⟨executed, committed, _⟩ := applyCommitted_executed apply
  have isAck : s.ack (.handBack write.sequence) =
      if out.lastNormalView = s.viewNumber then some (s.selfId, durable) else none := by
    show (s.ownAck write.sequence).map _ = _
    rw [← sequence, counted.own isOut isDurable]
    split <;> rfl
  have back : Marked s (s.acks events) (r.handedBack out) := counted.marked.still rfl
  have counting := (counted.reached.steady.handedBack out).counting
  have view : (r.handedBack out).viewNumber = s.viewNumber := counted.view
  have led : (r.handedBack out).status = .normal ∧ (r.handedBack out).isPrimary := by
    rw [back.core]
    exact ⟨normal, primary⟩
  have writes : acked.toWriteState = (r.handedBack out).toWriteState := by
    unfold ackOwn at own
    split at own
    · exact registerAck_writes own
    · cases own
      rfl
  have writes' : applied.toWriteState = acked.toWriteState := by rw [executed.core]
  have stays : applied.releaseWaiting.durableOp = some durable := by
    show WriteState.durableOp applied.toWriteState = some durable
    rw [writes', writes]
    exact isDurable
  have holds : ∀ k entry, s.entry k = some entry → k ≤ durable →
      s.Held (events ++ [.handBack write.sequence]) k entry := fun k entry isEntry inside =>
    ⟨isEntry, _, _, durable, List.prefix_refl _, hears', stays, inside⟩
  obtain ⟨served, replied⟩ := counted.replied
  replace replied : Replied (s.Held (events ++ [.handBack write.sequence])) s r served :=
    replied.mono fun k entry => Held.more
  replace replied : Replied _ s (r.handedBack out) served := replied.same rfl rfl rfl rfl rfl
  -- The acknowledgement counts if the write was taken in this view.
  have counts : Marked s (s.acks (events ++ [.handBack write.sequence])) acked ∧
      ∃ served, Replied (s.Held (events ++ [.handBack write.sequence])) s acked served := by
    rw [acks_append, isAck]
    unfold ackOwn at own
    split at own
    · next mine =>
      rw [if_pos (mine.2.2.trans view)]
      have self : (r.handedBack out).selfId = s.selfId := by rw [back.core]
      rw [self] at own
      refine ⟨back.count counted.began.steady.counting.enough own, ?_⟩
      refine replied.count counting view back.since own ?_
      intro k entry durable' isEntry isDurable' inside
      cases isDurable.symm.trans isDurable'
      exact holds k entry ((back.entry k).symm.trans isEntry) inside
    · next other =>
      cases own
      have elsewhere : out.lastNormalView ≠ s.viewNumber := fun same =>
        other ⟨led.1, led.2, same.trans view.symm⟩
      rw [if_neg elsewhere, Option.toList_none, List.append_nil]
      exact ⟨back, served, replied⟩
  obtain ⟨marked, served, replied⟩ := counts
  have view' : acked.viewNumber = s.viewNumber := by rw [marked.core]
  have done : Marked s (s.acks (events ++ [.handBack write.sequence])) applied := by
    refine marked.still (executed.core.trans ?_)
    rw [committed, writes']
  refine ⟨counted.began, reached', done.still rfl, ?_, ?_, ?_, ?_⟩
  · have isDurable' : acked.durableOp = some durable := by
      show WriteState.durableOp acked.toWriteState = some durable
      rw [writes]
      exact isDurable
    exact (applyCommitted_catches isDurable' apply).same rfl rfl rfl
  · obtain ⟨served', replied'⟩ := replied.apply view' apply fun k entry isEntry inside =>
      holds k entry ((marked.entry k).symm.trans isEntry) inside
    exact ⟨served', replied'.same rfl rfl rfl rfl rfl⟩
  · show s.writes ≤ applied.writes
    rw [writes', writes]
    exact counted.writes
  · intro out' isOut'
    replace isOut' : applied.outstanding = some out' := isOut'
    rw [writes', writes] at isOut'
    cases isOut'

end Counted

theorem counted_hears {events : List Event} (reached : s.Reached) (normal : s.status = .normal)
    (primary : s.isPrimary) (hears : Hears s events r) : Counted s events r := by
  induction hears with
  | start => exact .start reached
  | next before receives ih =>
      cases receives with
      | prepareOk run => exact ih.prepareOk normal primary before run
      | take run => exact ih.take run
      | handBack write isWrite run =>
          subst isWrite
          exact ih.handBack normal primary before run

theorem Acknowledged.congr {events events' : List Event}
    (same : ∀ event, event ∈ events' ↔ event ∈ events) (j k : Nat) :
    s.Acknowledged events' j k ↔ s.Acknowledged events j k := by
  unfold Acknowledged acks
  simp only [List.mem_filterMap, same]

theorem backers_congr {events events' : List Event}
    (same : ∀ event, event ∈ events' ↔ event ∈ events) (k : Nat) :
    s.backers events' k = s.backers events k := by
  refine List.countP_congr fun j _ => ?_
  rw [decide_eq_true_eq, decide_eq_true_eq]
  exact Acknowledged.congr same j k

/-- A primary commits the greatest op of its log that a quorum has acknowledged, if
that is beyond what it had committed; the order and the number of the
acknowledgements do not matter; and what it executes meanwhile it executes and
replies to once, in order and from the disk, and all it commits once that is
durable. -/
theorem acks_commit {events : List Event} (reached : s.Reached) (normal : s.status = .normal)
    (primary : s.isPrimary) (hears : Hears s events r) :
    (∃ best, IsGreatest { k | k ≤ s.opNumber ∧ s.config.quorum ≤ s.backers events k } best ∧
      r.commitNumber = max s.commitNumber best) ∧
    (∀ events' r', Hears s events' r' → (∀ event, event ∈ events' ↔ event ∈ events) →
      r'.commitNumber = r.commitNumber) ∧
    (∃ served, Serves (s.Held events) s.viewNumber s.applied s.stateMachine served
        r.applied r.stateMachine ∧
      served.map Prod.fst = List.range' (s.applied + 1) (r.applied - s.applied) ∧
      entryReplies r.replies =
        entryReplies s.replies ++ (served.filter fun answer => s.isDue answer.1).map Prod.snd) ∧
    ∀ k durable, s.commitNumber < k → k ≤ r.commitNumber → r.durableOp = some durable →
      k ≤ durable → k ≤ r.applied := by
  have commits : ∀ {events r}, Hears s events r →
      ∃ best, IsGreatest { k | k ≤ s.opNumber ∧ s.config.quorum ≤ s.backers events k } best ∧
        r.commitNumber = max s.commitNumber best := by
    intro events r hears
    have counted := counted_hears reached normal primary hears
    have status : r.InView := by
      left
      rw [counted.marked.core]
      exact normal
    exact counted.marked.commits reached.steady.counting (.inl normal)
      counted.reached.steady.counting status
  have counted := counted_hears reached normal primary hears
  obtain ⟨served, replied⟩ := counted.replied
  refine ⟨commits hears, fun events' r' hears' same => ?_, ⟨served, replied.serves, replied.serves.ops,
    replied.replies⟩, fun k durable new committed isDurable inside => ?_⟩
  · obtain ⟨best, greatest, isCommit⟩ := commits hears
    obtain ⟨best', greatest', isCommit'⟩ := commits hears'
    simp only [backers_congr same] at greatest'
    rw [isCommit, isCommit', greatest'.unique greatest]
  · rcases counted.caught with none | done
    · omega
    · exact (le_min committed inside).trans (done durable isDurable)

/-- A primary that has appended a registration, which no one has acknowledged yet. -/
def appended : Option (Replica Accumulator) := do
  let made ← Replica.new 0 Accumulator.config .new
  made.onMessage (.register 5)

theorem appended_reached {s : Replica Accumulator} (run : appended = some s) : s.Reached := by
  unfold appended at run
  obtain ⟨made, isMade, run⟩ := Option.bind_eq_some_iff.mp run
  exact .message (.made (.new isMade)) (.register 5) run

/-- A replica there is not acknowledges the registration, then one there is, and the
write is handed back. -/
theorem acks_commit_appended : ∃ s r, appended = some s ∧
    Hears s [.prepareOk 1 7, .prepareOk 9 2, .take, .handBack 1] r ∧
    r.replies = [.registered 0 5 1] ∧ r.commitNumber = 1 ∧
    ∃ best, IsGreatest { k | k ≤ s.opNumber ∧ s.config.quorum ≤ s.backers
      [.prepareOk 1 7, .prepareOk 9 2, .take, .handBack 1] k } best ∧
      r.commitNumber = max s.commitNumber best := by
  obtain ⟨s, stray, told, taken, write, back, isAppended, strays, tells, takes, persists, first,
      normal, primary, replies, committed⟩ :
      ∃ s stray told taken write back, appended = some s ∧
        s.onMessage (.prepareOk s.viewNumber 1 7) = some stray ∧
        stray.onMessage (.prepareOk stray.viewNumber 9 2) = some told ∧
        told.takeWrite = some (taken, write) ∧ taken.persisted write = some back ∧
        write.sequence = 1 ∧ s.status = .normal ∧ s.isPrimary ∧
        back.replies = [.registered 0 5 1] ∧ back.commitNumber = 1 :=
    ⟨_, _, _, _, _, _, rfl, rfl, rfl, rfl, rfl, rfl, rfl, rfl, rfl, rfl⟩
  have hears : Hears s [.prepareOk 1 7, .prepareOk 9 2, .take, .handBack 1] back :=
    .next (.next (.next (.next .start (.prepareOk strays)) (.prepareOk tells)) (.take takes))
      (.handBack write first persists)
  exact ⟨s, back, isAppended, hears, replies, committed,
    (acks_commit (appended_reached isAppended) normal primary hears).1⟩

end Vsr.Replica
