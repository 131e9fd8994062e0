import Vsr.Replica.Frames
import Vsr.Protocol.Acts

/-!
# The handlers keep to the protocol

Every function of the replica that a message or an idle period leads to is a
sequence of acts and of messages the protocol allows in the state they are
queued in.
-/

set_option autoImplicit false

namespace Vsr.Replica

open Std (ExtTreeMap)

variable {SM : Type} [StateMachine SM]

/-- The replica as the protocol sees it. -/
abbrev peer (r : Replica SM) : Peer (Input SM) := r.toCore.peer

abbrev InputsFor (SM : Type) [StateMachine SM] := Inputs (Input SM) (Query SM) (Chunk SM)

theorem mem_queued_send {r : Replica SM} {replicaId : Nat} {message : MessageFor SM}
    {envelope : Envelope SM} (mem : envelope ∈ (r.send replicaId message).queued) :
    envelope = (replicaId, message) ∨ envelope ∈ r.queued := by
  unfold send at mem
  split at mem <;>
    simp only [queued, List.mem_append, List.mem_singleton] at mem ⊢ <;> tauto

/-- `r` becomes `r'` by acts of the protocol, and has said what it has queued. -/
def Runs (i : InputsFor SM) (r r' : Replica SM) : Prop :=
  ∀ said : Set (Envelope SM), (∀ envelope ∈ r.queued, envelope ∈ said) →
    ∃ said', Steps i ⟨r.peer, said⟩ ⟨r'.peer, said'⟩ ∧ ∀ envelope ∈ r'.queued, envelope ∈ said'

namespace Runs
variable {i : InputsFor SM}

theorem trans {r m r' : Replica SM} (first : Runs i r m) (second : Runs i m r') :
    Runs i r r' := by
  intro said queued
  obtain ⟨said', steps, queued'⟩ := first said queued
  obtain ⟨said'', steps', queued''⟩ := second said' queued'
  exact ⟨said'', steps.trans steps', queued''⟩

/-- The protocol does not see the change. -/
theorem same {r r' : Replica SM} (peer : r'.peer = r.peer)
    (queued : ∀ envelope ∈ r'.queued, envelope ∈ r.queued) : Runs i r r' := by
  intro said before
  rw [peer]
  exact ⟨said, .refl, fun envelope mem => before envelope (queued envelope mem)⟩

theorem refl (r : Replica SM) : Runs i r r := same rfl fun _ mem => mem

theorem act {r r' : Replica SM} (act : Act i r.peer r'.peer)
    (queued : ∀ envelope ∈ r'.queued, envelope ∈ r.queued) : Runs i r r' := by
  intro said before
  exact ⟨said, .single (.act act), fun envelope mem => before envelope (queued envelope mem)⟩

theorem send {r : Replica SM} {replicaId : Nat} {m : MessageFor SM}
    (truthful : Says i r.peer (replicaId, m)) : Runs i r (r.send replicaId m) := by
  intro said before
  refine ⟨insert (replicaId, m) said, ?_, ?_⟩
  · have peer : (r.send replicaId m).peer = r.peer := by simp [Replica.peer]
    rw [peer]
    exact .single (.say _ truthful)
  · intro envelope mem
    rcases mem_queued_send mem with rfl | old
    · exact Set.mem_insert _ _
    · exact Set.mem_insert_of_mem _ (before envelope old)

theorem sendEach {r : Replica SM} {ids : List Nat} {message : MessageFor SM}
    (truthful : ∀ replicaId ∈ ids, Says i r.peer (replicaId, message)) :
    Runs i r (r.sendEach ids message) := by
  unfold Replica.sendEach
  induction ids generalizing r with
  | nil => exact refl r
  | cons replicaId rest ih =>
      refine (send (truthful replicaId (List.mem_cons_self ..))).trans (ih fun other mem => ?_)
      have peer : (r.send replicaId message).peer = r.peer := by simp [Replica.peer]
      rw [peer]
      exact truthful other (List.mem_cons_of_mem _ mem)

/-- An act, and a message that tells of it. -/
theorem actSend {r mid : Replica SM} {replicaId : Nat} {message : MessageFor SM}
    (does : Act i r.peer mid.peer) (queued : ∀ envelope ∈ mid.queued, envelope ∈ r.queued)
    (truthful : Says i mid.peer (replicaId, message)) : Runs i r (mid.send replicaId message) :=
  (act does queued).trans (send truthful)

end Runs

/-! ## Sending -/

section Send
variable {i : InputsFor SM} {r : Replica SM}

@[simp] theorem send_peer (r : Replica SM) (replicaId : Nat) (message : MessageFor SM) :
    (r.send replicaId message).peer = r.peer := by
  simp [Replica.peer]

theorem sendToOthers_runs {message : MessageFor SM}
    (truthful : ∀ replicaId, Says i r.peer (replicaId, message)) :
    Runs i r (r.sendToOthers message) :=
  .sendEach fun replicaId _ => truthful replicaId

theorem supersedeAcks_runs : Runs i r r.supersedeAcks := by
  refine .same rfl fun envelope mem => ?_
  simp only [queued, supersedeAcks, List.mem_append, List.mem_filter] at mem ⊢
  tauto

theorem sendPrepareOk_runs (status : r.status = .normal) : Runs i r r.sendPrepareOk :=
  Runs.trans supersedeAcks_runs
    (.send (r := r.supersedeAcks) (m := .prepareOk r.viewNumber r.opNumber r.selfId)
      ⟨status, rfl, rfl, rfl⟩)

theorem sendStartView_runs (replicaId : Nat) (status : r.status = .normal)
    (primary : r.peer.isPrimary) : Runs i r (r.sendStartView replicaId) :=
  .send ⟨status, primary, rfl, rfl, rfl⟩

theorem sendStartViews_runs (ids : List Nat) (status : r.status = .normal)
    (primary : r.peer.isPrimary) :
    Runs i r (ids.foldl (fun r replicaId => r.sendStartView replicaId) r) := by
  induction ids generalizing r with
  | nil => exact .refl r
  | cons replicaId rest ih =>
      refine Runs.trans (sendStartView_runs replicaId status primary) (ih ?_ ?_)
      · simpa [sendStartView] using status
      · simpa [sendStartView] using primary

theorem sendGetChunk_runs : Runs i r r.sendGetChunk := by
  unfold sendGetChunk
  split
  · exact .refl r
  · exact .send trivial

theorem ne_of_mem_others {replicaId : Nat} (mem : replicaId ∈ r.others) :
    replicaId ≠ r.selfId := by
  simpa using (List.mem_filter.mp mem).2

theorem sendRecovery_runs (status : r.status = .recovering) : Runs i r r.sendRecovery :=
  .sendEach fun _ mem => ⟨status, rfl, rfl, rfl, ne_of_mem_others (List.mem_filter.mp mem).1⟩

end Send

/-! ## Executing and committing -/

theorem entry_bounds {Op : Type} {s : Standing Op} {opNumber : Nat} {entry : LogEntry Op}
    (found : s.entry opNumber = some entry) : s.logStart < opNumber ∧ opNumber ≤ s.opNumber := by
  obtain ⟨index, sub, found⟩ := Option.bind_eq_some_iff.mp found
  obtain ⟨le, rfl⟩ := checkedSub_eq_some.mp sub
  obtain ⟨inside, _⟩ := List.getElem?_eq_some_iff.mp found
  unfold Standing.opNumber
  omega

theorem applyNext_eq {r r' : Replica SM} (run : r.applyNext = some r') :
    ∃ executed reply entry, r.execute (r.applied + 1) = some (executed, reply) ∧
      r.entry (r.applied + 1) = some entry ∧
      r' = { executed with
        applied := r.applied + 1
        replies := if toReply executed.replyRanges (r.applied + 1) then executed.replies ++ [reply]
          else executed.replies } := by
  obtain ⟨⟨executed, reply⟩, execution, run⟩ := Option.bind_eq_some_iff.mp run
  have lookup := execution
  unfold execute at lookup
  obtain ⟨entry, found, _⟩ := Option.bind_eq_some_iff.mp lookup
  cases run
  exact ⟨executed, reply, entry, execution, found, rfl⟩

theorem applyNext_core {r r' : Replica SM} (run : r.applyNext = some r') :
    r'.toCore = { r.toCore with applied := r.applied + 1 } ∧ r'.queued = r.queued ∧
      r.applied < r.opNumber := by
  obtain ⟨executed, reply, entry, execution, found, rfl⟩ := applyNext_eq run
  have same := execute_same execution
  refine ⟨?_, ?_, (entry_bounds found).2⟩
  · show { executed.toCore with applied := r.applied + 1 } = _
    rw [same.core]
  · show executed.queued = r.queued
    unfold queued
    rw [same.outboxes]

theorem applyMany_core {count : Nat} {r r' : Replica SM} (run : applyMany count r = some r') :
    r'.toCore = { r.toCore with applied := r.applied + count } ∧ r'.queued = r.queued ∧
      (count = 0 ∨ r.applied + count ≤ r.opNumber) := by
  induction count generalizing r with
  | zero =>
      cases run
      exact ⟨rfl, rfl, .inl rfl⟩
  | succ count ih =>
      obtain ⟨next, first, rest⟩ := Option.bind_eq_some_iff.mp run
      obtain ⟨core, queued, inside⟩ := applyNext_core first
      obtain ⟨core', queued', inside'⟩ := ih rest
      have applied : next.applied = r.applied + 1 := by rw [core]
      have opNumber : next.opNumber = r.opNumber := by rw [core]; rfl
      refine ⟨?_, queued'.trans queued, .inr ?_⟩
      · rw [core', core]
        simp only [Core.mk.injEq, Standing.mk.injEq, true_and, and_true]
        omega
      · rw [applied, opNumber] at inside'
        omega

/-- `apply_committed` executes entries, and otherwise only trims the ranges to
reply to and answers queries. -/
theorem applyCommitted_peer {r r' : Replica SM} {durable : Nat}
    (run : r.applyCommitted durable = some r') :
    ∃ applied, r'.peer = { r.peer with applied := applied } ∧ r'.queued = r.queued ∧
      (applied = r.applied ∨ (r.applied ≤ applied ∧ applied ≤ r.commitNumber ∧
        applied ≤ durable ∧ applied ≤ r.opNumber)) := by
  unfold applyCommitted at run
  obtain ⟨executed, execution, run⟩ := Option.bind_eq_some_iff.mp run
  obtain ⟨core, queued, inside⟩ := applyMany_core execution
  have peer : executed.peer =
      { r.peer with applied := r.applied + (min r.commitNumber durable - r.applied) } := by
    unfold Replica.peer
    rw [core]
    rfl
  refine ⟨r.applied + (min r.commitNumber durable - r.applied), ?_, ?_, ?_⟩
  · rw [← peer]
    cases run
    dsimp only
    split
    · rfl
    · have same := (executeQueries_same { executed with
        replyRanges := executed.replyRanges.filter fun range => executed.applied < range.2 }).core
      unfold Replica.peer
      rw [same]
      rfl
  · rw [← queued]
    cases run
    dsimp only
    split
    · rfl
    · exact (executeQueries_same _).queued
  · rcases inside with zero | inside
    · left
      omega
    · by_cases none : min r.commitNumber durable - r.applied = 0
      · left
        omega
      · right
        omega

theorem commitUpTo_peer {r r' : Replica SM} {commitNumber : Nat} {reply : Bool}
    (run : r.commitUpTo commitNumber reply = some r') :
    ∃ applied, r'.peer = r.peer.raise commitNumber applied ∧ r'.queued = r.queued ∧
      r.peer.Executes commitNumber applied := by
  unfold commitUpTo at run
  split at run
  · next stale =>
    cases run
    refine ⟨r.applied, ?_, rfl, .inl rfl⟩
    unfold Peer.raise
    rw [Nat.max_eq_left (show commitNumber ≤ r.peer.commitNumber from stale)]
    rfl
  · next new =>
    obtain ⟨durable, isDurable, run⟩ := Option.bind_eq_some_iff.mp run
    obtain ⟨applied, peer, queued, bounds⟩ := applyCommitted_peer run
    refine ⟨applied, ?_, queued, ?_⟩
    · rw [peer]
      unfold Peer.raise
      rw [Nat.max_eq_right (show r.peer.commitNumber ≤ commitNumber by
        have : ¬commitNumber ≤ r.peer.commitNumber := new
        omega)]
      rfl
    · rcases bounds with same | ⟨more, committed, durably, held⟩
      · exact .inl same
      · exact .inr ⟨durable, isDurable, more, committed.trans (le_max_right _ _), durably, held⟩

/-! ## Installing segments -/

theorem mergeLog_peer {r r' : Replica SM} {start : Nat} {entries : List (EntryFor SM)}
    (run : r.mergeLog start entries = some r') :
    r.peer.Mergeable start entries ∧ r'.peer = r.peer.merge start entries ∧
      r'.queued = r.queued := by
  obtain ⟨within, run⟩ := require_eq_some.mp run
  obtain ⟨held, run⟩ := require_eq_some.mp run
  obtain ⟨committed, run⟩ := require_eq_some.mp run
  have same := rebuildPending_same run
  refine ⟨⟨within, held, committed⟩, ?_, ?_⟩
  · unfold Replica.peer
    rw [same.core]
    rfl
  · unfold queued
    rw [same.outboxes]

/-- What installing a segment from the commit number comes to. -/
theorem installSegmentFromCommit_cases {r : Replica SM} {segment : LogSegment (Input SM)}
    {installed : Installed (Replica SM) (Input SM)}
    (run : r.installSegmentFromCommit segment = some installed) :
    (∃ r', installed = .log r' ∧ segment.start ≤ r.commitNumber ∧
      r.mergeLog segment.start segment.entries = some r') ∨
    (r.commitNumber < segment.start ∧
      ((installed = .nothing ∧ ∃ start, segment.base = .op start) ∨
        (installed = .checkpoint segment ∧ ∃ checkpoint, segment.base = .checkpoint checkpoint))) := by
  obtain ⟨base, entries⟩ := segment
  unfold installSegmentFromCommit at run
  cases base with
  | checkpoint checkpoint =>
      dsimp only at run
      split at run
      · next beyond =>
        cases run
        exact .inr ⟨beyond, .inr ⟨rfl, checkpoint, rfl⟩⟩
      · next reach =>
        obtain ⟨merged, merge, same⟩ := Option.map_eq_some_iff.mp run
        exact .inl ⟨merged, same.symm, not_lt.mp reach, merge⟩
  | op start =>
      dsimp only at run
      split at run
      · next beyond =>
        cases run
        exact .inr ⟨beyond, .inl ⟨rfl, start, rfl⟩⟩
      · next reach =>
        obtain ⟨merged, merge, same⟩ := Option.map_eq_some_iff.mp run
        exact .inl ⟨merged, same.symm, not_lt.mp reach, merge⟩

/-- What installing a segment received within the view comes to. -/
theorem installSegmentInView_cases {r : Replica SM} {segment : LogSegment (Input SM)}
    {installed : Installed (Replica SM) (Input SM)}
    (run : r.installSegmentInView segment = some installed) :
    (∃ r', installed = .log r' ∧ r.opNumber < segment.endOp ∧ segment.start ≤ r.opNumber ∧
      r.mergeLog segment.start segment.entries = some r') ∨
    installed = .nothing ∨
    (installed = .checkpoint segment ∧ (∃ checkpoint, segment.base = .checkpoint checkpoint) ∧
      r.opNumber < segment.endOp) := by
  obtain ⟨base, entries⟩ := segment
  unfold installSegmentInView at run
  split at run
  · cases run
    exact .inr (.inl rfl)
  · next further =>
    cases base with
    | checkpoint checkpoint =>
        dsimp only at run
        split at run
        · cases run
          exact .inr (.inr ⟨rfl, ⟨checkpoint, rfl⟩, not_le.mp further⟩)
        · next reach =>
          obtain ⟨merged, merge, same⟩ := Option.map_eq_some_iff.mp run
          exact .inl ⟨merged, same.symm, not_le.mp further, not_lt.mp reach, merge⟩
    | op start =>
        dsimp only at run
        split at run
        · cases run
          exact .inr (.inl rfl)
        · next reach =>
          obtain ⟨merged, merge, same⟩ := Option.map_eq_some_iff.mp run
          exact .inl ⟨merged, same.symm, not_le.mp further, not_lt.mp reach, merge⟩

theorem restoreCheckpoint_peer {r r' : Replica SM} {opNumber : Nat}
    (run : r.restoreCheckpoint opNumber = some r') (cleared : r.fetch = none) :
    r.commitNumber < opNumber ∧ r'.peer = r.peer.restore opNumber ∧ r'.queued = r.queued := by
  obtain ⟨beyond, run⟩ := require_eq_some.mp run
  have same := rebuildPending_same run
  refine ⟨beyond, ?_, ?_⟩
  · unfold Replica.peer
    rw [same.core]
    unfold stopServing
    split
    · simp [loadClientTable, Core.peer, Peer.restore, cleared]
    · next none =>
      simp only [Bool.not_eq_true, Option.isSome_eq_false_iff, Option.isNone_iff_eq_none] at none
      simp [loadClientTable, Core.peer, Peer.restore, cleared, none]
  · unfold queued
    rw [same.outboxes]
    unfold stopServing
    split <;> rfl

/-! ## Views -/

theorem le_foldl_max (marks : List Nat) (start : Nat) :
    start ≤ marks.foldl max start ∧ ∀ mark ∈ marks, mark ≤ marks.foldl max start := by
  induction marks generalizing start with
  | nil => simp
  | cons head rest ih =>
      obtain ⟨first, others⟩ := ih (max start head)
      refine ⟨(le_max_left start head).trans first, fun mark mem => ?_⟩
      rcases List.mem_cons.mp mem with rfl | later
      · exact (le_max_right start mark).trans first
      · exact others mark later

theorem foldl_max_mem (marks : List Nat) (start : Nat) :
    marks.foldl max start = start ∨ marks.foldl max start ∈ marks := by
  induction marks generalizing start with
  | nil => exact .inl rfl
  | cons mark rest ih =>
      rw [List.foldl_cons]
      rcases ih (max start mark) with same | mem
      · rw [same]
        rcases max_choice start mark with keep | take
        · exact .inl keep
        · exact .inr (by rw [take]; exact List.mem_cons_self ..)
      · exact .inr (List.mem_cons_of_mem _ mem)

section Best
variable {Op : Type}

theorem rankLe_refl (a : DoViewChange Op) : a.rankLe a := .inr ⟨rfl, le_rfl⟩

theorem rankLe_trans {a b c : DoViewChange Op} (first : a.rankLe b) (second : b.rankLe c) :
    a.rankLe c := by
  unfold DoViewChange.rankLe at *
  omega

theorem rankLe_of_not {a b : DoViewChange Op} (not : ¬a.rankLe b) : b.rankLe a := by
  unfold DoViewChange.rankLe at *
  omega

theorem foldl_best (rest : List (Nat × DoViewChange Op)) (first : Nat × DoViewChange Op) :
    let best := rest.foldl (fun best next =>
      if DoViewChange.rankLe best.2 next.2 then next else best) first
    best ∈ first :: rest ∧ ∀ other ∈ first :: rest, DoViewChange.rankLe other.2 best.2 := by
  induction rest generalizing first with
  | nil => simp [rankLe_refl]
  | cons next rest ih =>
      simp only [List.foldl_cons]
      split
      · next higher =>
        obtain ⟨mem, highest⟩ := ih next
        refine ⟨List.mem_cons_of_mem _ mem, fun other isOther => ?_⟩
        rcases List.mem_cons.mp isOther with rfl | later
        · exact rankLe_trans higher (highest next (List.mem_cons_self ..))
        · exact highest other later
      · next lower =>
        obtain ⟨mem, highest⟩ := ih first
        refine ⟨?_, fun other isOther => ?_⟩
        · rcases List.mem_cons.mp mem with here | later
          · rw [here]
            exact List.mem_cons_self ..
          · exact List.mem_cons_of_mem _ (List.mem_cons_of_mem _ later)
        · rcases List.mem_cons.mp isOther with rfl | later
          · exact highest other (List.mem_cons_self ..)
          · rcases List.mem_cons.mp later with rfl | last
            · exact rankLe_trans (rankLe_of_not lower) (highest first (List.mem_cons_self ..))
            · exact highest other (List.mem_cons_of_mem _ last)

theorem bestOf_isBest {reports : ExtTreeMap Nat (DoViewChange Op)} {bestId : Nat}
    {best : DoViewChange Op} (run : bestOf reports.toList = some (bestId, best)) :
    IsBest reports bestId best := by
  unfold bestOf at run
  split at run
  · cases run
  · next first rest isList =>
    obtain ⟨mem, highest⟩ := foldl_best rest first
    rw [← isList, Option.some.inj run] at mem
    rw [← isList, Option.some.inj run] at highest
    exact
      { mem := ExtTreeMap.mem_toList_iff_getElem?_eq_some.mp mem
        highest := fun other report found =>
          highest (other, report) (ExtTreeMap.mem_toList_iff_getElem?_eq_some.mpr found) }

/-- The greatest of the reported commit numbers is one of them. -/
theorem maxCommit_reported {reports : ExtTreeMap Nat (DoViewChange Op)} {bestId : Nat}
    {best : DoViewChange Op} (found : reports[bestId]? = some best) :
    ∃ (replicaId : Nat) (report : DoViewChange Op), reports[replicaId]? = some report ∧
      report.commitNumber = (reports.toList.map (·.2.commitNumber)).foldl max 0 := by
  rcases foldl_max_mem (reports.toList.map (·.2.commitNumber)) 0 with zero | mem
  · refine ⟨bestId, best, found, ?_⟩
    have := (le_foldl_max (reports.toList.map (·.2.commitNumber)) 0).2 best.commitNumber
      (List.mem_map.mpr ⟨(bestId, best), ExtTreeMap.mem_toList_iff_getElem?_eq_some.mpr found, rfl⟩)
    omega
  · obtain ⟨⟨replicaId, report⟩, mem, same⟩ := List.mem_map.mp mem
    exact ⟨replicaId, report, ExtTreeMap.mem_toList_iff_getElem?_eq_some.mp mem, same⟩

end Best

section Views
variable {i : InputsFor SM}

theorem enterNormal_peer (r : Replica SM) : r.enterNormal.peer = r.peer.enterNormal := rfl

theorem enterNormal_queued (r : Replica SM) : r.enterNormal.queued = r.queued := rfl

theorem leaveFor_runs {r : Replica SM} {v : Nat} (status : r.status ≠ .recovering)
    (later : r.viewNumber < v) : Runs i r (r.leaveFor v) :=
  .act (Act.leave (p := r.peer) v status later) fun _ mem => mem

theorem catchUpWithView_runs {r : Replica SM} {v : Nat} (status : r.status ≠ .recovering)
    (later : r.viewNumber < v ∨ (r.viewNumber = v ∧ r.status = .viewChange))
    (started : i.Started v) : Runs i r (r.catchUpWithView v) := by
  unfold catchUpWithView
  dsimp only
  split
  · exact .refl r
  · refine Runs.actSend ?_ (fun _ mem => mem) ?_
    · exact Act.catchUp (p := r.peer) v status later started
    · exact ⟨rfl, rfl, .inr ⟨.inl rfl, rfl⟩⟩

theorem stateTransfer_runs {r : Replica SM} (status : r.status = .normal)
    (backup : ¬r.peer.isPrimary) : Runs i r r.stateTransfer := by
  unfold stateTransfer
  refine Runs.actSend ?_ (fun _ mem => mem) ?_
  · exact Act.fallBehind (p := r.peer) status backup
  · exact ⟨rfl, rfl, .inl ⟨rfl, rfl⟩⟩

theorem tryStartView_runs {r r' : Replica SM} (run : r.tryStartView = some r')
    (status : r.status ≠ .normal ∧ r.status ≠ .recovering) (primary : r.peer.isPrimary)
    (quorum : r.config.quorum ≤ r.doViewChangeFrom.size) : Runs i r r' := by
  have away : r.status = .viewChange ∨ (r.status = .stateTransfer ∧ r.peer.isPrimary) := by
    cases now : r.status <;> simp_all
  unfold tryStartView at run
  obtain ⟨⟨bestId, best⟩, choice, run⟩ := Option.bind_eq_some_iff.mp run
  obtain ⟨installed, install, run⟩ := Option.bind_eq_some_iff.mp run
  have isBest := bestOf_isBest choice
  rcases installSegmentFromCommit_cases install with
    ⟨merged, rfl, reach, merge⟩ | ⟨beyond, ⟨rfl, _⟩ | ⟨rfl, _⟩⟩
  · obtain ⟨committed, commit, run⟩ := Option.bind_eq_some_iff.mp run
    obtain ⟨mergeable, mergedPeer, mergedQueued⟩ := mergeLog_peer merge
    obtain ⟨applied, peer, queued, executes⟩ := commitUpTo_peer commit
    cases run
    have started : Runs i r committed.enterNormal := by
      refine .act ?_ (by rw [enterNormal_queued, queued, mergedQueued]; exact fun _ mem => mem)
      rw [enterNormal_peer, peer, mergedPeer]
      rw [mergedPeer] at executes
      exact Act.begin bestId best _ applied status primary quorum isBest reach mergeable
        (maxCommit_reported isBest.mem) executes
    refine started.trans (sendStartViews_runs _ rfl ?_)
    rw [enterNormal_peer, peer, mergedPeer]
    exact primary
  all_goals
    cases run
    refine Runs.actSend ?_ (fun _ mem => mem) ?_
    · exact Act.ask (p := r.peer) bestId best status primary quorum isBest beyond
    · exact ⟨rfl, rfl, .inr ⟨away, rfl⟩⟩

theorem recordDoViewChange_runs {r r' : Replica SM} {replicaId : Nat}
    {report : DoViewChange (Input SM)} (run : r.recordDoViewChange replicaId report = some r')
    (status : r.status ≠ .normal ∧ r.status ≠ .recovering) (primary : r.peer.isPrimary)
    (heard : i.heard (.doViewChange r.viewNumber replicaId report.lastNormalView report.segment
        report.commitNumber) ∨
      (r.status = .viewChange ∧ replicaId = r.selfId ∧ report = r.peer.report)) : Runs i r r' := by
  simp only [recordDoViewChange] at run
  have recorded := Act.record (i := i) (p := r.peer) replicaId report status primary heard
  split at run
  · cases run
    exact .act recorded fun _ mem => mem
  · next quorum =>
    refine Runs.trans ?_ (tryStartView_runs run status primary (not_lt.mp quorum))
    exact .act recorded fun _ mem => mem

theorem sendDoViewChange_runs {r r' : Replica SM} (run : r.sendDoViewChange = some r')
    (status : r.status = .viewChange) (settled : r.catchingUp = none) : Runs i r r' := by
  simp only [sendDoViewChange] at run
  split at run
  · next primary =>
    exact recordDoViewChange_runs run (by simp [status]) primary.symm (.inr ⟨status, rfl, rfl⟩)
  · next backup =>
    cases run
    exact .send ⟨rfl, rfl, status, settled, fun primary => backup primary.symm, rfl⟩

theorem maybeSendDoViewChange_runs {r r' : Replica SM}
    (run : r.maybeSendDoViewChange = some r') : Runs i r r' := by
  unfold maybeSendDoViewChange at run
  split at run
  · cases run
    exact .refl r
  · next due =>
    simp only [not_or, not_not, Option.not_isSome_iff_eq_none] at due
    obtain ⟨status, settled, _⟩ := due
    split at run
    · cases run
      exact .refl r
    · refine Runs.trans ?_ (sendDoViewChange_runs run status settled)
      exact .act (Act.markSent (p := r.peer) status settled) fun _ mem => mem

theorem startViewChange_runs {r r' : Replica SM} {v : Nat} (run : r.startViewChange v = some r')
    (status : r.status ≠ .recovering) (later : r.viewNumber < v) : Runs i r r' := by
  refine Runs.trans (leaveFor_runs status later)
    (Runs.trans (sendToOthers_runs fun replicaId => ?_) (maybeSendDoViewChange_runs run))
  exact ⟨rfl, rfl⟩

end Views

/-! ## Normal operation -/

section Normal
variable {i : InputsFor SM}

theorem entry_append_last {Op : Type} (s : Standing Op) (entry : LogEntry Op) :
    Standing.entry { s with log := s.log ++ [entry] } (s.opNumber + 1) = some entry := by
  have index : s.logStart + s.log.length + 1 - (s.logStart + 1) = s.log.length := by omega
  simp [Standing.entry, Standing.opNumber, index]

theorem prepare_runs {r : Replica SM} {entry : EntryFor SM} (status : r.status = .normal)
    (primary : r.peer.isPrimary) (offered : i.offered entry) : Runs i r (r.prepare entry) := by
  refine Runs.trans (m := r.appendToLog entry)
    (.act (Act.prepare (p := r.peer) entry status primary offered) fun _ mem => mem)
    (sendToOthers_runs fun replicaId => ⟨status, primary, rfl, ?_, rfl⟩)
  have opNumber : (r.appendToLog entry).opNumber = r.opNumber + 1 := by
    simp [appendToLog, Standing.opNumber]
    omega
  rw [opNumber]
  exact entry_append_last r.toStanding entry

/-- The entries the primary appends for a client it has heard: a registration
unless one is under way, and the session's next request. -/
def Appends (heard : MessageFor SM → Prop) (r : Replica SM) : EntryFor SM → Prop
  | .register clientId =>
      heard (.register clientId) ∧ r.record clientId = none ∧
        (r.clientState clientId).pending.any (fun key => key.2 = 0) = false
  | .request clientId session requestNumber answered op =>
      heard (.request clientId session requestNumber answered op) ∧
        ∃ record, r.record clientId = some record ∧ record.session = session ∧
          record.requestNumber < requestNumber ∧
          ((∃ pending, (r.clientState clientId).pending = some (session, pending) ∧
              requestNumber = pending + 1) ∨
            (requestNumber = record.requestNumber + 1 ∧
              ∀ key, (r.clientState clientId).pending = some key → key.1 < session))

theorem onRegister_runs {r : Replica SM} {clientId : Nat} (heard : i.heard (.register clientId))
    (offered : ∀ entry, r.Appends i.heard entry → i.offered entry) :
    Runs i r (r.onRegister clientId) := by
  unfold onRegister
  split
  · exact .refl r
  · next due =>
    simp only [not_or, not_not] at due
    split
    · exact .same rfl fun _ mem => mem
    · next none =>
      split
      · exact .refl r
      · next fresh =>
        exact prepare_runs due.2 due.1 (offered _ ⟨heard, none, by simpa using fresh⟩)

theorem resendReply_runs {r : Replica SM} {record : ClientRecord (Output SM)}
    {clientId session requestNumber : Nat} :
    Runs i r (r.resendReply record clientId session requestNumber) := by
  unfold resendReply
  dsimp only
  split
  · exact .same rfl fun _ mem => mem
  · exact .refl r

theorem onRequest_runs {r : Replica SM} {clientId session requestNumber answered : Nat}
    {op : Input SM} (heard : i.heard (.request clientId session requestNumber answered op))
    (offered : ∀ entry, r.Appends i.heard entry → i.offered entry) :
    Runs i r (r.onRequest clientId session requestNumber answered op) := by
  unfold onRequest
  split
  · exact .refl r
  · next due =>
    simp only [not_or, not_not] at due
    split
    · split
      · exact .same rfl fun _ mem => mem
      · exact .refl r
    · next record found =>
      simp only [Option.filter_eq_some_iff, decide_eq_true_eq] at found
      split
      · exact resendReply_runs
      · next new =>
        dsimp only
        have append : ∀ latest, (∃ pending, (r.clientState clientId).pending =
              some (session, pending) ∧ latest = pending) ∨
            (latest = record.requestNumber ∧
              ∀ key, (r.clientState clientId).pending = some key → key.1 < session) →
            Runs i r (if requestNumber ≠ latest + 1 ∨
                requestNumber > record.requestNumber + r.config.inFlightMax then r
              else r.prepare (.request clientId session requestNumber answered op)) := by
          intro latest last
          split
          · exact .refl r
          · next fits =>
            simp only [not_or, not_not] at fits
            refine prepare_runs due.2 due.1 (offered _ ⟨heard, record, found.1, found.2,
              not_le.mp new, last.imp ?_ ?_⟩)
            · rintro ⟨pending, isPending, rfl⟩
              exact ⟨latest, isPending, fits.1⟩
            · rintro ⟨rfl, older⟩
              exact ⟨fits.1, older⟩
        split
        · next pendingSession pending isPending =>
          split
          · next same =>
            subst same
            exact append pending (.inl ⟨pending, isPending, rfl⟩)
          · split
            · exact .refl r
            · next other notLater =>
              refine append _ (.inr ⟨rfl, fun key isKey => ?_⟩)
              rw [isPending] at isKey
              cases isKey
              show pendingSession < session
              omega
        · next none =>
          refine append _ (.inr ⟨rfl, fun key isKey => ?_⟩)
          rw [none] at isKey
          cases isKey

/-- Whether or not the message is for now, what it leads to is by the protocol. -/
theorem acceptFromPrimary_runs {r : Replica SM} {v : Nat} (status : r.status ≠ .recovering)
    (started : i.Started v) : Runs i r (r.acceptFromPrimary v).1 := by
  unfold acceptFromPrimary
  split
  · exact .refl r
  · split
    · next later => exact catchUpWithView_runs status (.inl later) started
    · next notEarlier notLater =>
      have heard : Runs i r { r with heardFromPrimary := true } := .same rfl fun _ mem => mem
      dsimp only
      split
      · exact heard
      · exact heard
      · exact heard
      · next away =>
        refine heard.trans (catchUpWithView_runs (by simp [away]) (.inr ⟨?_, away⟩) started)
        show r.viewNumber = v
        omega

/-- A message taken as a normal-case one is from the primary of the view. -/
theorem acceptFromPrimary_accepts {r r' : Replica SM} {v : Nat}
    (accepts : r.acceptFromPrimary v = (r', true)) :
    r'.status = .normal ∧ ¬r'.peer.isPrimary ∧ r'.viewNumber = v ∧
      r' = { r with heardFromPrimary := true } := by
  unfold acceptFromPrimary at accepts
  split at accepts
  · cases accepts
  · split at accepts
    · cases accepts
    · next notEarlier notLater =>
      dsimp only at accepts
      split at accepts
      · next status =>
        obtain ⟨rfl, backup⟩ := Prod.mk.inj accepts
        refine ⟨status, (of_decide_eq_true backup : ¬r.isPrimary), ?_, rfl⟩
        show r.viewNumber = v
        omega
      all_goals cases accepts

theorem commitUpTo_told {r r' : Replica SM} {commitNumber : Nat}
    (run : r.commitUpTo commitNumber false = some r') (status : r.status = .normal)
    (backup : ¬r.peer.isPrimary) (told : i.Commits r.viewNumber commitNumber)
    (held : commitNumber ≤ r.opNumber) : Runs i r r' := by
  obtain ⟨applied, peer, queued, executes⟩ := commitUpTo_peer run
  refine .act ?_ (by rw [queued]; exact fun _ mem => mem)
  rw [peer]
  exact Act.commit commitNumber applied status backup told held executes

theorem onPrepare_runs {r r' : Replica SM} {v opNumber commitNumber : Nat} {entry : EntryFor SM}
    (run : r.onPrepare v opNumber entry commitNumber = some r') (status : r.status ≠ .recovering)
    (heard : i.heard (.prepare v opNumber entry commitNumber)) : Runs i r r' := by
  have first := acceptFromPrimary_runs (i := i) status (.inl ⟨_, _, _, heard⟩)
  unfold onPrepare at run
  split at run
  · next accepted accepts =>
    cases run
    rwa [accepts] at first
  · next accepted accepts =>
    rw [accepts] at first
    refine first.trans ?_
    obtain ⟨normal, backup, view, _⟩ := acceptFromPrimary_accepts accepts
    split at run
    · cases run
      exact stateTransfer_runs normal backup
    · obtain ⟨committed, commit, run⟩ := Option.bind_eq_some_iff.mp run
      cases run
      split at commit
      · next next =>
        have appended : Runs i accepted (accepted.appendToLog entry) := by
          refine .act (Act.accept (p := accepted.peer) entry commitNumber normal backup ?_)
            fun _ mem => mem
          show i.heard (.prepare accepted.viewNumber (accepted.opNumber + 1) entry commitNumber)
          rwa [view, ← next]
        refine appended.trans ((commitUpTo_told commit normal backup ?_ (Nat.min_le_right ..)).trans
          (sendPrepareOk_runs ?_))
        · exact .inl ⟨opNumber, entry, commitNumber, by
            show i.heard (.prepare accepted.viewNumber opNumber entry commitNumber)
            rwa [view], Nat.min_le_left ..⟩
        · obtain ⟨_, peer, _⟩ := commitUpTo_peer commit
          have same : committed.peer.status = accepted.peer.status := by rw [peer]; rfl
          exact same.trans normal
      · refine Runs.trans (commitUpTo_told commit normal backup ?_ (Nat.min_le_right ..))
          (sendPrepareOk_runs ?_)
        · exact .inl ⟨opNumber, entry, commitNumber, by rwa [view], Nat.min_le_left ..⟩
        · obtain ⟨_, peer, _⟩ := commitUpTo_peer commit
          have same : committed.peer.status = accepted.peer.status := by rw [peer]; rfl
          exact same.trans normal

theorem onCommit_runs {r r' : Replica SM} {v commitNumber : Nat}
    (run : r.onCommit v commitNumber = some r') (status : r.status ≠ .recovering)
    (heard : i.heard (.commit v commitNumber)) : Runs i r r' := by
  have first := acceptFromPrimary_runs (i := i) status (.inr (.inl ⟨_, heard⟩))
  unfold onCommit at run
  split at run
  · next accepted accepts =>
    cases run
    rwa [accepts] at first
  · next accepted accepts =>
    rw [accepts] at first
    refine first.trans ?_
    obtain ⟨normal, backup, view, _⟩ := acceptFromPrimary_accepts accepts
    split at run
    · cases run
      exact stateTransfer_runs normal backup
    · next held =>
      exact commitUpTo_told run normal backup
        (.inr ⟨commitNumber, by rwa [view], le_rfl⟩) (not_lt.mp held)

theorem quorumMark_reached {quorum : Nat} (marks : List Nat) (pos : 0 < quorumMark quorum marks) :
    quorum ≤ (marks.filter fun mark => decide (quorumMark quorum marks ≤ mark)).length := by
  rcases foldl_max_mem (marks.filter fun mark =>
    quorum ≤ (marks.filter fun other => mark ≤ other).length) 0 with zero | mem
  · exact absurd zero (by unfold quorumMark at pos; omega)
  · exact of_decide_eq_true (List.mem_filter.mp mem).2

theorem commitUpTo_stale {r : Replica SM} {commitNumber : Nat} {reply : Bool}
    (stale : commitNumber ≤ r.commitNumber) : r.commitUpTo commitNumber reply = some r :=
  if_pos stale

/-- The primary counts an acknowledgement, and commits what it completes. -/
theorem registerAck_runs {r r' : Replica SM} {replicaId opNumber : Nat}
    (run : r.registerAck replicaId opNumber = some r') (status : r.status = .normal)
    (primary : r.peer.isPrimary)
    (heard : (replicaId = r.selfId ∧ ∀ k ≤ opNumber, i.holds r.viewNumber k) ∨
      i.heard (.prepareOk r.viewNumber opNumber replicaId)) :
    Runs i r r' := by
  unfold registerAck at run
  obtain ⟨mark, found, run⟩ := Option.bind_eq_some_iff.mp run
  split at run
  · cases run
    exact .refl r
  · next fresh =>
    have counted : Act i r.peer
        { r.peer with acked := r.acked.set replicaId (min opNumber r.opNumber) } :=
      .count replicaId (min opNumber r.opNumber) status primary (Nat.min_le_right ..)
        (fun before isMark => by
          cases found.symm.trans isMark
          exact (Nat.lt_of_not_le fresh).le)
        (heard.imp (And.imp_right fun holds => holds _ (Nat.min_le_left ..))
          fun acknowledged => ⟨opNumber, acknowledged, Nat.min_le_left ..⟩)
    by_cases stale : quorumMark r.config.quorum (r.acked.set replicaId (min opNumber r.opNumber)) ≤
        r.commitNumber
    · cases (commitUpTo_stale (r := { r with
        acked := r.acked.set replicaId (min opNumber r.opNumber) }) stale).symm.trans run
      exact .act counted fun _ mem => mem
    · obtain ⟨applied, peer, queued, executes⟩ := commitUpTo_peer run
      refine Runs.trans (m := { r with acked := r.acked.set replicaId (min opNumber r.opNumber) })
        (.act counted fun _ mem => mem) (.act ?_ (by rw [queued]; exact fun _ mem => mem))
      have reached := @quorumMark_reached r.config.quorum
        (r.acked.set replicaId (min opNumber r.opNumber)) (by omega)
      rw [peer]
      exact Act.decide _ applied status primary reached executes

theorem onPrepareOk_runs {r r' : Replica SM} {v opNumber replicaId : Nat}
    (run : r.onPrepareOk v opNumber replicaId = some r')
    (heard : i.heard (.prepareOk v opNumber replicaId)) : Runs i r r' := by
  unfold onPrepareOk at run
  split at run
  · cases run
    exact .refl r
  · next due =>
    simp only [not_or, not_not] at due
    obtain ⟨view, primary, status, _⟩ := due
    exact registerAck_runs run status primary (.inr (by rwa [← view]))

/-! ## Queries -/

theorem startRound_runs {r r' : Replica SM} (run : r.startRound = some r')
    (status : r.status = .normal) (primary : r.peer.isPrimary) : Runs i r r' := by
  obtain ⟨_, run⟩ := require_eq_some.mp run
  cases run
  refine Runs.trans ?_ (sendToOthers_runs fun replicaId => ?_)
  · exact .same rfl fun _ mem => mem
  · exact ⟨status, primary, rfl⟩

theorem roundForQuery_runs {r r' : Replica SM} {round : Nat}
    (run : r.roundForQuery = some (r', round)) (status : r.status = .normal)
    (primary : r.peer.isPrimary) : Runs i r r' := by
  unfold roundForQuery at run
  split at run
  · cases run
    exact .refl r
  · obtain ⟨out, _, run⟩ := Option.bind_eq_some_iff.mp run
    split at run
    · obtain ⟨started, start, run⟩ := Option.bind_eq_some_iff.mp run
      cases run
      exact startRound_runs start status primary
    · cases run
      exact .refl r

theorem onQuery_runs {r r' : Replica SM} {clientId queryNumber : Nat} {query : Query SM}
    (run : r.onQuery clientId queryNumber query = some r') : Runs i r r' := by
  unfold onQuery at run
  split at run
  · cases run
    exact .refl r
  · next due =>
    simp only [not_or, not_not] at due
    obtain ⟨⟨asked, round⟩, ask, run⟩ := Option.bind_eq_some_iff.mp run
    cases run
    refine Runs.trans (m := { r with waiting := insert (clientId, queryNumber) r.waiting })
      (.same rfl fun _ mem => mem)
      (Runs.trans (roundForQuery_runs ask due.2.1 due.1) (.same rfl fun _ mem => mem))

theorem onConfirmView_runs {r : Replica SM} {v round : Nat} :
    Runs i r (r.onConfirmView v round) := by
  unfold onConfirmView
  split
  · exact .refl r
  · next due =>
    simp only [not_or, not_not] at due
    exact .send ⟨rfl, due.1, rfl, due.2⟩

theorem executeQueries_runs {r : Replica SM} : Runs i r r.executeQueries := by
  have same := executeQueries_same r
  refine .same (by unfold Replica.peer; rw [same.core]) ?_
  rw [same.queued]
  exact fun _ mem => mem

theorem onConfirmViewOk_runs {r r' : Replica SM} {v round replicaId : Nat}
    (run : r.onConfirmViewOk v round replicaId = some r') : Runs i r r' := by
  unfold onConfirmViewOk at run
  split at run
  · cases run
    exact .refl r
  · next due =>
    simp only [not_or, not_not] at due
    obtain ⟨_, primary, status, _⟩ := due
    dsimp only at run
    split at run
    · cases run
      exact .same rfl fun _ mem => mem
    · obtain ⟨started, start, run⟩ := Option.map_eq_some_iff.mp run
      cases run
      refine Runs.trans ?_ executeQueries_runs
      unfold startRoundIfAwaited at start
      split at start
      · refine Runs.trans ?_ (startRound_runs start status primary)
        exact .same rfl fun _ mem => mem
      · cases start
        exact .same rfl fun _ mem => mem

end Normal

end Vsr.Replica
