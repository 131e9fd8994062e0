import Vsr.Protocol.Refine

/-!
# Every entry point keeps to the protocol

State transfer, recovery, view changes and idle periods, and the two entry
points that lead to the handlers.
-/

set_option autoImplicit false

namespace Vsr.Replica

open Std (ExtTreeMap)

variable {SM : Type} [StateMachine SM] {i : InputsFor SM}

/-! ## State transfer -/

theorem keepCheckpoint_runs {r r' : Replica SM} {checkpoint : Nat}
    (run : r.keepCheckpoint = some (r', checkpoint)) :
    Runs i r r' ∧ r'.peer.serving = some checkpoint ∧
      r'.peer = { r.peer with serving := some checkpoint } := by
  unfold keepCheckpoint at run
  split at run
  · next idle kept =>
    cases run
    have serving : r.peer.serving = some checkpoint := by simp [Core.peer, kept]
    refine ⟨.refl r, serving, ?_⟩
    rw [← serving]
  · obtain ⟨⟨held, done⟩, run⟩ := require_eq_some.mp run
    cases run
    exact ⟨.act (Act.keep (p := r.peer) _ held done) fun _ mem => mem, rfl, rfl⟩

theorem segmentFrom_runs {r r' : Replica SM} {opNumber : Nat} {segment : LogSegment (Input SM)}
    (run : r.segmentFrom opNumber = some (r', segment)) (held : opNumber ≤ r.opNumber) :
    Runs i r r' ∧ (∃ serving, r'.peer = { r.peer with serving := serving }) ∧
      (r'.peer.ServingOk → r'.peer.IsSegment segment) := by
  unfold segmentFrom at run
  split at run
  · next fromHere =>
    cases run
    exact ⟨.refl r, ⟨r.peer.serving, rfl⟩, fun _ => ⟨rfl, fromHere, held⟩⟩
  · obtain ⟨⟨kept, checkpoint⟩, keep, run⟩ := Option.bind_eq_some_iff.mp run
    cases run
    obtain ⟨runs, serving, peer⟩ := keepCheckpoint_runs (i := i) keep
    refine ⟨runs, ⟨_, peer⟩, fun ok => ?_⟩
    obtain ⟨start, done⟩ := ok checkpoint serving
    exact ⟨rfl, start, done⟩

theorem settled_cases {r : Replica SM} (settled : r.settled = true) :
    r.status = .normal ∨
      (r.status = .viewChange ∧ r.doViewChangeSent = true ∧ r.catchingUp = none) := by
  unfold Replica.settled at settled
  split at settled
  · next status => exact .inl status
  · next status => exact .inr ⟨status, by simpa using settled⟩
  all_goals cases settled

theorem onGetState_runs {r r' : Replica SM} {replicaId v opNumber : Nat}
    (run : r.onGetState replicaId v opNumber = some r')
    (heard : i.heard (.getState replicaId v opNumber)) : Runs i r r' := by
  unfold onGetState at run
  split at run
  · cases run
    exact .refl r
  · next due =>
    simp only [not_or, not_not, not_lt] at due
    obtain ⟨rfl, held⟩ := due
    split at run
    · cases run
      exact .refl r
    · next settled =>
      obtain ⟨⟨kept, segment⟩, segmentFrom, run⟩ := Option.bind_eq_some_iff.mp run
      cases run
      obtain ⟨runs, ⟨serving, peer⟩, isSegment⟩ := segmentFrom_runs (i := i) segmentFrom held
      refine runs.trans (.send ⟨rfl, ?_, ⟨opNumber, heard⟩, ?_, isSegment, rfl⟩)
      · rw [peer]
        rfl
      · rw [peer]
        exact settled_cases (by simpa using settled)

theorem onGetChunk_runs {r : Replica SM} {replicaId opNumber index : Nat} :
    Runs i r (r.onGetChunk replicaId opNumber index) := by
  unfold onGetChunk
  split
  · exact .refl r
  · next kept idle serving =>
    split
    · exact .refl r
    · refine Runs.trans ?_ (.send ?_)
      · refine .same ?_ fun _ mem => mem
        simp [Core.peer, serving]
      · trivial

/-- Takes up `segment` of the view it is in, whose entries the log now holds; `q`
is the peer it was merged into. -/
theorem newStateInstalled_runs {r merged r' : Replica SM} {q : Peer (Input SM)}
    {segment : LogSegment (Input SM)} {commitNumber : Nat}
    (run : merged.newStateInstalled commitNumber = some r')
    (peer : merged.peer = q.merge segment.start segment.entries)
    (queued : merged.queued = r.queued)
    (same : q.status = r.status ∧ q.config = r.config ∧ q.selfId = r.selfId ∧
      q.viewNumber = r.viewNumber ∧ q.doViewChangeFrom = r.doViewChangeFrom)
    (sent : i.Sent r.peer r.viewNumber segment commitNumber)
    (fetched : r.peer.AtCheckpoint q (.newState r.viewNumber segment commitNumber))
    (mergeable : q.Mergeable segment.start segment.entries)
    (transfer : r.status = .stateTransfer →
      segment.start ≤ q.opNumber ∧ (r.opNumber < segment.endOp ∨
        r.peer.Resumes (.newState r.viewNumber segment commitNumber)))
    (change : r.status = .viewChange → segment.start ≤ q.commitNumber ∧ (r.catchingUp.isSome ∨
      r.peer.Resumes (.newState r.viewNumber segment commitNumber))) :
    Runs i r r' := by
  obtain ⟨sameStatus, sameConfig, sameSelf, sameView, sameReports⟩ := same
  have status : merged.status = r.status := by
    rw [← sameStatus]
    exact congrArg (·.status) peer
  simp only [newStateInstalled] at run
  split at run
  · next isTransfer =>
    replace isTransfer : merged.status = .stateTransfer := isTransfer
    obtain ⟨committed, commit, run⟩ := Option.bind_eq_some_iff.mp run
    obtain ⟨applied, commitPeer, commitQueued, executes⟩ := commitUpTo_peer commit
    cases run
    refine Runs.trans (m := { committed with status := .normal }) (.act ?_ ?_)
      (sendPrepareOk_runs rfl)
    · obtain ⟨reach, further⟩ := transfer (status ▸ isTransfer)
      have cleared : Replica.peer { merged with fetch := none } =
          { q.merge segment.start segment.entries with fetch := none } := by
        rw [← peer]
        rfl
      have result : Replica.peer { committed with status := .normal } =
          { (q.merge segment.start segment.entries).raise commitNumber applied with
            status := .normal, fetch := none } := by
        have : Replica.peer { committed with status := .normal } =
            { committed.peer with status := .normal } := rfl
        rw [this, commitPeer, cleared]
        rfl
      rw [cleared] at executes
      rw [result]
      exact Act.extend segment commitNumber applied (status ▸ isTransfer) sent fetched reach
        further mergeable executes
    · show ∀ envelope ∈ committed.queued, _
      rw [commitQueued]
      show ∀ envelope ∈ merged.queued, _
      rw [queued]
      exact fun _ mem => mem
  · next isChange =>
    replace isChange : merged.status = .viewChange := isChange
    obtain ⟨reach, asked⟩ := change (status ▸ isChange)
    have cleared : Replica.peer { merged with fetch := none, catchingUp := none } =
        { q.merge segment.start segment.entries with catchingUp := none, fetch := none } := by
      rw [← peer]
      rfl
    have view : merged.viewNumber = r.viewNumber :=
      (congrArg (·.viewNumber) peer).trans sameView
    have config : merged.config = r.config := (congrArg (·.config) peer).trans sameConfig
    have self : merged.selfId = r.selfId := (congrArg (·.selfId) peer).trans sameSelf
    have reports : merged.doViewChangeFrom = r.doViewChangeFrom :=
      (congrArg (·.doViewChangeFrom) peer).trans sameReports
    have primary : merged.isPrimary ↔ r.peer.isPrimary := by
      show merged.selfId = merged.config.primaryId merged.viewNumber ↔
        r.selfId = r.config.primaryId r.viewNumber
      rw [view, config, self]
    split at run
    · next leads =>
      refine Runs.trans (.act ?_ ?_) (tryStartView_runs run ?_ leads.1 leads.2)
      · rw [cleared]
        exact Act.adopt segment commitNumber (status ▸ isChange) asked (primary.mp leads.1) sent
          fetched reach mergeable
      · show ∀ envelope ∈ merged.queued, _
        rw [queued]
        exact fun _ mem => mem
      · exact ⟨by simp [isChange], by simp [isChange]⟩
    · next follower =>
      obtain ⟨committed, commit, run⟩ := Option.bind_eq_some_iff.mp run
      obtain ⟨applied, commitPeer, commitQueued, executes⟩ := commitUpTo_peer commit
      cases run
      rw [cleared] at commitPeer executes
      refine Runs.trans (m := committed.enterNormal) (.act ?_ ?_) (sendPrepareOk_runs rfl)
      · have result : committed.enterNormal.peer =
            ((q.merge segment.start segment.entries).raise commitNumber applied).enterNormal := by
          rw [enterNormal_peer, commitPeer]
          rfl
        rw [result]
        refine Act.join segment commitNumber applied (status ▸ isChange) asked ?_ sent fetched reach
          mergeable executes
        rintro ⟨leads, quorum⟩
        refine follower ⟨primary.mpr leads, ?_⟩
        show merged.config.quorum ≤ merged.doViewChangeFrom.size
        rw [config, reports]
        exact quorum
      · show ∀ envelope ∈ committed.queued, _
        rw [commitQueued]
        show ∀ envelope ∈ merged.queued, _
        rw [queued]
        exact fun _ mem => mem
  all_goals cases run

theorem startFetch_runs {r : Replica SM} {source checkpoint commitNumber : Nat}
    {entries : List (EntryFor SM)}
    (status : r.status = .stateTransfer ∨ (r.status = .viewChange ∧ r.catchingUp.isSome))
    (heard : ∃ replicaId, i.heard
      (.newState replicaId r.viewNumber ⟨.checkpoint checkpoint, entries⟩ commitNumber))
    (further : r.status = .stateTransfer → r.opNumber < checkpoint + entries.length) :
    Runs i r (r.startFetch source
      (.newState r.viewNumber ⟨.checkpoint checkpoint, entries⟩ commitNumber)) := by
  have fetches : ∀ fetch : Fetch (Input SM),
      fetch.resume = .newState r.viewNumber ⟨.checkpoint checkpoint, entries⟩ commitNumber →
      Runs i r { r with fetch := some fetch } := fun fetch resume =>
    .act (Act.fetchState (p := r.peer) fetch checkpoint entries commitNumber status resume heard
      further) fun _ mem => mem
  unfold startFetch
  dsimp only
  repeat' split
  all_goals first
    | exact .refl r
    | exact fetches _ rfl
    | exact (fetches _ rfl).trans sendGetChunk_runs

theorem onNewState_runs {r r' : Replica SM} {replicaId v commitNumber : Nat}
    {segment : LogSegment (Input SM)}
    (run : r.onNewState replicaId v segment commitNumber = some r')
    (heard : i.heard (.newState replicaId v segment commitNumber)) : Runs i r r' := by
  unfold onNewState at run
  split at run
  · cases run
    exact .refl r
  · next view =>
    simp only [ne_eq, not_not] at view
    subst view
    dsimp only at run
    refine Runs.trans (m := { r with heardFromPrimary := true })
      (.same rfl fun _ mem => mem) ?_
    have sent : i.Sent (Replica.peer { r with heardFromPrimary := true }) r.viewNumber segment
        commitNumber := .inl ⟨replicaId, heard⟩
    split at run
    · next status =>
      obtain ⟨installed, install, run⟩ := Option.bind_eq_some_iff.mp run
      rcases installSegmentInView_cases install with
        ⟨merged, rfl, further, reach, merge⟩ | rfl | ⟨rfl, ⟨checkpoint, base⟩, further⟩
      · obtain ⟨mergeable, peer, queued⟩ := mergeLog_peer merge
        refine newStateInstalled_runs run peer queued ⟨rfl, rfl, rfl, rfl, rfl⟩ sent (.inl rfl)
          mergeable (fun _ => ⟨reach, .inl further⟩) fun change => ?_
        rw [status] at change
        cases change
      · cases run
        exact .refl _
      · cases run
        obtain ⟨_, entries⟩ := segment
        subst base
        exact startFetch_runs (.inl status) ⟨replicaId, heard⟩ fun _ => further
    · next status =>
      split at run
      · next asked =>
        obtain ⟨installed, install, run⟩ := Option.bind_eq_some_iff.mp run
        rcases installSegmentFromCommit_cases install with
          ⟨merged, rfl, reach, merge⟩ | ⟨beyond, ⟨rfl, _⟩ | ⟨rfl, checkpoint, base⟩⟩
        · obtain ⟨mergeable, peer, queued⟩ := mergeLog_peer merge
          refine newStateInstalled_runs run peer queued ⟨rfl, rfl, rfl, rfl, rfl⟩ sent (.inl rfl)
            mergeable (fun transfer => ?_) fun _ => ⟨reach, .inl asked⟩
          rw [status] at transfer
          cases transfer
        · cases run
          exact .refl _
        · cases run
          obtain ⟨_, entries⟩ := segment
          subst base
          refine startFetch_runs (.inr ⟨status, asked⟩) ⟨replicaId, heard⟩ fun transfer => ?_
          rw [status] at transfer
          cases transfer
      · cases run
        exact .refl _
    all_goals
      cases run
      exact .refl _

/-! ## Recovery -/

theorem onRecovery_runs {r r' : Replica SM} {replicaId nonce v : Nat}
    (run : r.onRecovery replicaId nonce v = some r')
    (heard : i.heard (.recovery replicaId nonce v)) : Runs i r r' := by
  unfold onRecovery at run
  split at run
  · next later => exact startViewChange_runs run later.2 later.1
  · next notLater =>
    split at run
    · cases run
      exact .refl r
    · next status =>
      simp only [ne_eq, not_not] at status
      have asked : v ≤ r.viewNumber := by
        by_contra later
        exact notLater ⟨not_le.mp later, by simp [status]⟩
      split at run
      · next primary =>
        obtain ⟨⟨kept, segment⟩, segmentFrom, run⟩ := Option.bind_eq_some_iff.mp run
        cases run
        obtain ⟨runs, ⟨serving, peer⟩, isSegment⟩ :=
          segmentFrom_runs (i := i) segmentFrom (Nat.zero_le _)
        refine runs.trans (.send ⟨?_, rfl, rfl, ⟨v, ?_, heard⟩, ?_, isSegment, rfl⟩)
        · rw [peer]
          exact status
        · rw [peer]
          exact asked
        · rw [peer]
          exact primary
      · next backup =>
        cases run
        exact .send ⟨status, rfl, rfl, ⟨v, asked, heard⟩, backup⟩

/-- Takes up the state the primary of view `v` answered with; `q` is the peer
the log goes into. -/
theorem recoverInto_runs {r before r' : Replica SM} {q : Peer (Input SM)} {v : Nat}
    {state : RecoveryState (Input SM)} (responses : ExtTreeMap Nat (RecoveryResponse (Input SM)))
    (run : before.recoverInto v state = some r')
    (status : r.status = .recovering ∨ r.peer.Resumes (.recoveryResponse v state))
    (answered : r.peer.Answered v state)
    (fetched : r.peer.AtCheckpoint q (.recoveryResponse v state))
    (peer : before.peer = { q with recoveryResponses := responses })
    (queued : before.queued = r.queued) (clears : q = r.peer → r.status = .recovering ∧ responses = ∅) : Runs i r r' := by
  unfold recoverInto at run
  obtain ⟨installed, install, run⟩ := Option.bind_eq_some_iff.mp run
  rcases installSegmentFromCommit_cases install with
    ⟨merged, rfl, reach, merge⟩ | ⟨beyond, ⟨rfl, _⟩ | ⟨rfl, checkpoint, base⟩⟩
  · obtain ⟨mergeable, mergedPeer, mergedQueued⟩ := mergeLog_peer merge
    obtain ⟨committed, commit, run⟩ := Option.bind_eq_some_iff.mp run
    obtain ⟨applied, commitPeer, commitQueued, executes⟩ := commitUpTo_peer commit
    cases run
    have inView : Replica.peer { merged with viewNumber := v } =
        { (q.merge state.segment.start state.segment.entries) with
          viewNumber := v, recoveryResponses := responses } := by
      have : Replica.peer { merged with viewNumber := v } =
          { merged.peer with viewNumber := v } := rfl
      rw [this, mergedPeer, peer]
      rfl
    rw [inView] at commitPeer executes
    rw [peer] at mergeable
    refine .act ?_ ?_
    · have result : committed.enterNormal.peer =
          { (q.merge state.segment.start state.segment.entries).raise state.commitNumber applied with
            viewNumber := v, recoveryResponses := responses }.enterNormal := by
        rw [enterNormal_peer, commitPeer]
        rfl
      rw [result]
      have start : before.commitNumber = q.commitNumber := congrArg (·.commitNumber) peer
      exact Act.comeBack v state.segment state.commitNumber applied status answered fetched
        (start ▸ reach) ⟨mergeable.within, mergeable.held, mergeable.committed⟩ executes responses
    · show ∀ envelope ∈ committed.queued, _
      rw [commitQueued]
      show ∀ envelope ∈ merged.queued, _
      rw [mergedQueued, queued]
      exact fun _ mem => mem
  · cases run
  · cases run
    have commitNumber : before.commitNumber = q.commitNumber := congrArg (·.commitNumber) peer
    rcases fetched with rfl | ⟨_, rfl, _⟩
    · obtain ⟨recovering, rfl⟩ := clears rfl
      obtain ⟨⟨_, entries⟩, told⟩ := state
      subst base
      have forget : Runs i r before := by
        refine .act ?_ (by rw [queued]; exact fun _ mem => mem)
        rw [peer]
        exact Act.forget recovering
      have fetches : ∀ fetch : Fetch (Input SM),
          fetch.resume = .recoveryResponse v ⟨⟨.checkpoint checkpoint, entries⟩, told⟩ →
          Runs i r { before with fetch := some fetch } := by
        intro fetch resume
        refine .act ?_ (by
          show ∀ envelope ∈ before.queued, _
          rw [queued]
          exact fun _ mem => mem)
        have result : Replica.peer { before with fetch := some fetch } =
            { r.peer with fetch := some fetch, recoveryResponses := ∅ } := by
          have : Replica.peer { before with fetch := some fetch } =
              { before.peer with fetch := some fetch } := rfl
          rw [this, peer]
        rw [result]
        exact Act.fetchRecovery fetch v checkpoint entries told recovering resume answered
      unfold startFetch
      dsimp only
      repeat' split
      all_goals first
        | exact forget
        | exact fetches _ rfl
        | exact (fetches _ rfl).trans sendGetChunk_runs
    · rw [commitNumber] at beyond
      exact absurd beyond (Nat.lt_irrefl _)

theorem onRecoveryResponse_runs {r r' : Replica SM} {v nonce replicaId : Nat}
    {state : Option (RecoveryState (Input SM))}
    (run : r.onRecoveryResponse v nonce replicaId state = some r')
    (heard : i.heard (.recoveryResponse v nonce replicaId state)) : Runs i r r' := by
  unfold onRecoveryResponse at run
  split at run
  · cases run
    exact .refl r
  · next due =>
    simp only [not_or, not_not] at due
    obtain ⟨status, rfl⟩ := due
    dsimp only at run
    have collected : Runs i r { r with
        recoveryResponses := r.recoveryResponses.insert replicaId ⟨v, state⟩ } :=
      .act (Act.collect (p := r.peer) replicaId v state status heard) fun _ mem => mem
    refine collected.trans ?_
    split at run
    · cases run
      exact .refl _
    · next quorum =>
      split at run
      · cases run
        exact .refl _
      · next recent =>
        split at run
        · next primaryView answer found =>
          split at run
          · cases run
            exact .refl _
          · next latest =>
            simp only [ne_eq, not_not] at latest
            subst latest
            refine recoverInto_runs ∅ run (.inl status) (.inl ⟨_, found, rfl, ?_, ?_, ?_⟩)
              (.inl rfl) rfl rfl fun _ => ⟨status, rfl⟩
            · exact not_lt.mp recent
            · exact not_lt.mp quorum
            · intro other response isResponse
              refine (le_foldl_max _ 0).2 _ (List.mem_map.mpr ⟨(other, response), ?_, rfl⟩)
              exact ExtTreeMap.mem_toList_iff_getElem?_eq_some.mpr isResponse
        · cases run
          exact .refl _

theorem onNewChunk_runs {r r' : Replica SM} {replicaId opNumber index : Nat} {chunk : Chunk SM}
    {last : Bool} (run : r.onNewChunk replicaId opNumber index chunk last = some r') :
    Runs i r r' := by
  unfold onNewChunk at run
  split at run
  · cases run
    exact .refl r
  · next fetch isFetch =>
    split at run
    · cases run
      exact .refl r
    · next wanted =>
      simp only [not_or, not_not] at wanted
      obtain ⟨_, isCheckpoint, _⟩ := wanted
      dsimp only at run
      split at run
      · cases run
        refine Runs.trans ?_ sendGetChunk_runs
        refine .act (Act.refetch (p := r.peer) (some _) fun next isNext => ?_) fun _ mem => mem
        cases isNext
        exact ⟨fetch, isFetch, rfl⟩
      · split at run
        · cases run
          refine .act ?_ fun _ mem => mem
          exact Act.refetch (p := r.peer) none fun next isNext => by cases isNext
        · obtain ⟨restored, restore, goOn⟩ := Option.bind_eq_some_iff.mp run
          obtain ⟨beyond, restoredPeer, restoredQueued⟩ := restoreCheckpoint_peer restore rfl
          replace restoredPeer : restored.peer = r.peer.restore opNumber := restoredPeer
          replace restoredQueued : restored.queued = r.queued := restoredQueued
          replace beyond : r.commitNumber < opNumber := beyond
          have resumes : ∀ resume, fetch.resume = resume → r.peer.Resumes resume :=
            fun resume isResume => ⟨fetch, isFetch, isResume⟩
          split at goOn
          · next v segment commitNumber isResume =>
            have start : segment.start = opNumber := by
              rw [← isCheckpoint, isResume]
              rfl
            have view : restored.viewNumber = r.viewNumber := congrArg (·.viewNumber) restoredPeer
            subst start
            split at goOn
            · next same =>
              rw [view] at same
              subst same
              obtain ⟨merged, merge, goOn⟩ := Option.bind_eq_some_iff.mp goOn
              obtain ⟨mergeable, mergedPeer, mergedQueued⟩ := mergeLog_peer merge
              rw [restoredPeer] at mergeable mergedPeer
              refine newStateInstalled_runs goOn mergedPeer (mergedQueued.trans restoredQueued)
                ⟨rfl, rfl, rfl, rfl, rfl⟩ (.inr (resumes _ isResume))
                (.inr ⟨beyond, rfl, resumes _ isResume⟩) mergeable
                (fun _ => ⟨?_, .inr (resumes _ isResume)⟩)
                (fun _ => ⟨le_rfl, .inr (resumes _ isResume)⟩)
              exact Nat.le_add_right _ _
            · next left =>
              cases goOn
              rw [view] at left
              refine .act ?_ (by rw [restoredQueued]; exact fun _ mem => mem)
              rw [restoredPeer]
              exact Act.strand v segment commitNumber (resumes _ isResume) left beyond
          · next v state isResume =>
            have start : state.segment.start = opNumber := by
              rw [← isCheckpoint, isResume]
              rfl
            subst start
            refine recoverInto_runs r.recoveryResponses goOn
              (.inr (resumes _ isResume)) (.inr (resumes _ isResume))
              (.inr ⟨beyond, rfl, resumes _ isResume⟩) restoredPeer restoredQueued fun same => ?_
            have : state.segment.start = r.commitNumber := congrArg (·.commitNumber) same
            omega

/-! ## View changes -/

theorem onStartViewChange_runs {r r' : Replica SM} {v replicaId : Nat}
    (run : r.onStartViewChange v replicaId = some r') (status : r.status ≠ .recovering) :
    Runs i r r' := by
  have joins : ∀ {before after : Replica SM},
      Replica.maybeSendDoViewChange { before with
        startViewChangeFrom := insert replicaId before.startViewChangeFrom } = some after →
      Runs i before after := by
    intro before after run
    refine Runs.trans ?_ (maybeSendDoViewChange_runs run)
    exact .same rfl fun _ mem => mem
  unfold onStartViewChange at run
  dsimp only at run
  split at run
  · cases run
    exact .refl r
  · split at run
    · next later =>
      obtain ⟨moved, move, run⟩ := Option.bind_eq_some_iff.mp run
      exact (startViewChange_runs move status later).trans (joins run)
    · split at run
      · split at run
        · next started =>
          cases run
          exact sendStartView_runs replicaId started.1 started.2
        · cases run
          exact .refl r
      · exact joins run

/-- A view change does not complete at once: the replica's own report is not a
quorum. -/
theorem maybeSendDoViewChange_standing {r r' : Replica SM}
    (run : r.maybeSendDoViewChange = some r') (several : 2 ≤ r.config.quorum)
    (first : r.doViewChangeFrom = ∅) :
    r'.toStanding = r.toStanding ∧ r'.selfId = r.selfId ∧ r'.config = r.config := by
  unfold maybeSendDoViewChange at run
  split at run
  · cases run
    exact ⟨rfl, rfl, rfl⟩
  · split at run
    · cases run
      exact ⟨rfl, rfl, rfl⟩
    · simp only [sendDoViewChange] at run
      split at run
      · simp only [recordDoViewChange] at run
        rw [if_pos ?_] at run
        · cases run
          exact ⟨rfl, rfl, rfl⟩
        · rw [first, ExtTreeMap.size_insert]
          simp only [ExtTreeMap.contains_empty, Bool.false_eq_true, if_false, ExtTreeMap.size_empty]
          omega
      · cases run
        simp

theorem startViewChange_moved {r r' : Replica SM} {v : Nat} (run : r.startViewChange v = some r')
    (several : 2 ≤ r.config.quorum) :
    r'.viewNumber = v ∧ r'.selfId = r.selfId ∧ r'.config = r.config ∧
      r'.status = .viewChange := by
  have same := sendToOthers_same (r.leaveFor v) (.startViewChange v r.selfId)
  have config : ((r.leaveFor v).sendToOthers (.startViewChange v r.selfId)).config = r.config := by
    rw [same.core]
    rfl
  obtain ⟨standing, self, config'⟩ := maybeSendDoViewChange_standing run (by rwa [config]) (by
    rw [same.core]
    rfl)
  rw [same.core] at standing self config'
  exact ⟨by rw [standing]; rfl, self, config', by rw [standing]; rfl⟩

theorem onDoViewChange_runs {r r' : Replica SM} {v replicaId : Nat}
    {report : DoViewChange (Input SM)} (run : r.onDoViewChange v replicaId report = some r')
    (status : r.status ≠ .recovering) (several : 2 ≤ r.config.quorum)
    (heard : i.heard (.doViewChange v replicaId report.lastNormalView report.segment
      report.commitNumber)) : Runs i r r' := by
  unfold onDoViewChange at run
  split at run
  · cases run
    exact .refl r
  · next due =>
    simp only [not_or, not_not, not_lt] at due
    obtain ⟨notEarlier, leads⟩ := due
    split at run
    · next later =>
      obtain ⟨moved, move, run⟩ := Option.bind_eq_some_iff.mp run
      obtain ⟨view, self, config, away⟩ := startViewChange_moved move several
      refine (startViewChange_runs move status later).trans
        (recordDoViewChange_runs run (by simp [away]) ?_ (.inl (by rwa [view])))
      show moved.selfId = moved.config.primaryId moved.viewNumber
      rw [self, config, view, leads]
    · next notLater =>
      have view : v = r.viewNumber := by omega
      subst view
      split at run
      · next normal =>
        cases run
        exact sendStartView_runs replicaId normal leads.symm
      · next away => exact recordDoViewChange_runs run ⟨away, status⟩ leads.symm (.inl heard)

theorem onStartView_runs {r r' : Replica SM} {v commitNumber : Nat}
    {segment : LogSegment (Input SM)} (run : r.onStartView v segment commitNumber = some r')
    (status : r.status ≠ .recovering) (heard : i.heard (.startView v segment commitNumber)) :
    Runs i r r' := by
  unfold onStartView at run
  split at run
  · cases run
    exact .refl r
  · next due =>
    have later : r.viewNumber < v ∨ (r.viewNumber = v ∧ r.status = .viewChange) := by
      simp only [not_or, not_lt, not_and, not_not] at due
      rcases due.1.lt_or_eq with earlier | rfl
      · exact .inl earlier
      · exact .inr ⟨rfl, due.2 rfl⟩
    obtain ⟨installed, install, run⟩ := Option.bind_eq_some_iff.mp run
    rcases installSegmentFromCommit_cases install with
      ⟨merged, rfl, reach, merge⟩ | ⟨_, ⟨rfl, _⟩ | ⟨rfl, _⟩⟩
    · obtain ⟨mergeable, mergedPeer, mergedQueued⟩ := mergeLog_peer merge
      obtain ⟨committed, commit, run⟩ := Option.bind_eq_some_iff.mp run
      obtain ⟨applied, commitPeer, commitQueued, executes⟩ := commitUpTo_peer commit
      cases run
      have inView : Replica.peer { merged with viewNumber := v } =
          { r.peer.merge segment.start segment.entries with viewNumber := v } := by
        rw [← mergedPeer]
        rfl
      rw [inView] at commitPeer executes
      refine Runs.trans (m := committed.enterNormal) (.act ?_ ?_) (sendPrepareOk_runs rfl)
      · rw [enterNormal_peer, commitPeer]
        exact Act.follow v segment commitNumber commitNumber applied status later heard reach
          mergeable rfl executes
      · show ∀ envelope ∈ committed.queued, _
        rw [commitQueued]
        show ∀ envelope ∈ merged.queued, _
        rw [mergedQueued]
        exact fun _ mem => mem
    all_goals
      cases run
      exact catchUpWithView_runs status later (.inr (.inr ⟨_, _, heard⟩))

/-! ## The entry points -/

/-- Whatever message is handled, the replica acts and speaks by the protocol. -/
theorem onMessage_runs {r r' : Replica SM} {message : MessageFor SM}
    (run : r.onMessage message = some r') (several : 2 ≤ r.config.quorum)
    (heard : i.heard message) (offered : ∀ entry, r.Appends i.heard entry → i.offered entry) :
    Runs i r r' := by
  unfold onMessage at run
  split at run
  · cases run
    exact .refl r
  · next attends =>
    have status : actedOnRecovering message = false → r.status ≠ .recovering :=
      fun ignored recovering => attends ⟨recovering, by simp [ignored]⟩
    cases message with
    | register clientId =>
        cases run
        exact onRegister_runs heard offered
    | request clientId session requestNumber answered op =>
        cases run
        exact onRequest_runs heard offered
    | query clientId queryNumber query => exact onQuery_runs run
    | confirmView v round =>
        cases run
        exact onConfirmView_runs
    | confirmViewOk v round replicaId => exact onConfirmViewOk_runs run
    | prepare v opNumber entry commitNumber => exact onPrepare_runs run (status rfl) heard
    | prepareOk v opNumber replicaId => exact onPrepareOk_runs run heard
    | commit v commitNumber => exact onCommit_runs run (status rfl) heard
    | getState replicaId v opNumber => exact onGetState_runs run heard
    | newState replicaId v segment commitNumber => exact onNewState_runs run heard
    | getChunk replicaId opNumber index =>
        cases run
        exact onGetChunk_runs
    | newChunk replicaId opNumber index chunk last => exact onNewChunk_runs run
    | startViewChange v replicaId => exact onStartViewChange_runs run (status rfl)
    | doViewChange v replicaId lastNormalView segment commitNumber =>
        exact onDoViewChange_runs run (status rfl) several heard
    | startView v segment commitNumber => exact onStartView_runs run (status rfl) heard
    | recovery replicaId nonce v => exact onRecovery_runs run heard
    | recoveryResponse v nonce replicaId state => exact onRecoveryResponse_runs run heard

theorem serveOnIdle_runs {r : Replica SM} :
    Runs i r r.serveOnIdle ∧ ∃ serving, r.serveOnIdle.peer = { r.peer with serving := serving } := by
  unfold serveOnIdle
  split
  · exact ⟨.refl r, r.peer.serving, rfl⟩
  · next opNumber idle serving =>
    split
    · exact ⟨.act (Act.release (p := r.peer)) fun _ mem => mem, none, rfl⟩
    · have same : Replica.peer { r with serving := some (opNumber, idle + 1) } = r.peer := by
        simp [Core.peer, serving]
      exact ⟨.same same fun _ mem => mem, r.peer.serving, same⟩

theorem fetchOnIdle_runs {r : Replica SM} :
    Runs i r r.fetchOnIdle.1 ∧ ∃ fetch, r.fetchOnIdle.1.peer = { r.peer with fetch := fetch } := by
  unfold fetchOnIdle
  split
  · exact ⟨.refl r, r.fetch, rfl⟩
  · next fetch isFetch =>
    have waits : ∀ next : Fetch (Input SM), next.resume = fetch.resume →
        Runs i r { r with fetch := some next } := fun next resume =>
      .act (Act.refetch (p := r.peer) (some next) fun _ same => by
        cases same
        exact ⟨fetch, isFetch, resume⟩) fun _ mem => mem
    split
    · exact ⟨.refl r, r.fetch, rfl⟩
    · dsimp only
      split
      · exact ⟨waits _ rfl, _, rfl⟩
      · split
        · refine ⟨Runs.trans ?_ sendGetChunk_runs, ?_⟩
          · exact waits _ rfl
          · refine ⟨some { fetch with idlePeriods := fetch.idlePeriods + 1 }, ?_⟩
            exact congrArg Core.peer (sendGetChunk_same { r with
              fetch := some { fetch with idlePeriods := fetch.idlePeriods + 1 } }).core
        · exact ⟨waits _ rfl, _, rfl⟩

theorem noteStable_runs {r : Replica SM} : Runs i r r.noteStable := .same rfl fun _ mem => mem

theorem resendPrepare_runs {r r' : Replica SM} {due : Nat} (run : r.resendPrepare due = some r')
    (status : r.status = .normal) (primary : r.peer.isPrimary) :
    Runs i r r' ∧ r'.peer = r.peer := by
  unfold resendPrepare at run
  split at run
  · obtain ⟨entry, found, run⟩ := Option.map_eq_some_iff.mp run
    cases run
    exact ⟨.sendEach fun replicaId _ => ⟨status, primary, rfl, found, rfl⟩,
      congrArg Core.peer (sendEach_same _ _ _).core⟩
  · cases run
    exact ⟨.refl r, rfl⟩

theorem resendRound_runs {r : Replica SM} (status : r.status = .normal)
    (primary : r.peer.isPrimary) : Runs i r r.resendRound := by
  unfold resendRound
  split
  · exact .sendEach fun replicaId _ => ⟨status, primary, rfl⟩
  · exact .refl r

theorem primaryOnIdle_runs {r r' : Replica SM} (run : r.primaryOnIdle = some r')
    (status : r.status = .normal) (primary : r.peer.isPrimary) : Runs i r r' := by
  simp only [primaryOnIdle] at run
  obtain ⟨resent, resend, run⟩ := Option.map_eq_some_iff.mp run
  cases run
  have same := sendToOthers_same r.noteStable (.commit r.viewNumber r.commitNumber)
  have beaten : Runs i r { r.noteStable.sendToOthers (.commit r.viewNumber r.commitNumber) with
      resendUpTo := r.opNumber } := by
    refine noteStable_runs.trans (Runs.trans (sendToOthers_runs fun replicaId => ?_)
      (.same rfl fun _ mem => mem))
    exact ⟨status, primary, rfl, rfl⟩
  have peer : Replica.peer { r.noteStable.sendToOthers (.commit r.viewNumber r.commitNumber) with
      resendUpTo := r.opNumber } = r.peer := by
    show (r.noteStable.sendToOthers (.commit r.viewNumber r.commitNumber)).peer = r.noteStable.peer
    exact congrArg Core.peer same.core
  have isNormal : (r.noteStable.sendToOthers (.commit r.viewNumber r.commitNumber)).status =
      .normal := (congrArg (·.status) peer).trans status
  obtain ⟨resends, resentPeer⟩ := resendPrepare_runs (i := i) resend isNormal (by
    rw [peer]
    exact primary)
  refine beaten.trans (resends.trans (resendRound_runs ?_ ?_))
  · exact (congrArg (·.status) (resentPeer.trans peer)).trans status
  · rw [resentPeer, peer]
    exact primary

theorem transferOnIdle_runs {r : Replica SM} :
    Runs i r r.transferOnIdle ∧ r.transferOnIdle.status = r.status := by
  unfold transferOnIdle
  split
  · next status =>
    obtain ⟨runs, fetch, peer⟩ := fetchOnIdle_runs (i := i) (r := r)
    split
    · next waited isWaiting =>
      rw [isWaiting] at runs peer
      exact ⟨runs, congrArg (·.status) peer⟩
    · next waited isWaiting =>
      rw [isWaiting] at runs peer
      have same : waited.status = .stateTransfer := (congrArg (·.status) peer).trans status
      refine ⟨runs.trans ?_, ?_⟩
      · unfold stateTransfer
        refine Runs.trans ?_ (.send ?_)
        · refine .same ?_ fun _ mem => mem
          show { waited.peer with status := .stateTransfer } = waited.peer
          rw [← same]
          rfl
        · exact ⟨rfl, rfl, .inl ⟨rfl, rfl⟩⟩
      · rw [status]
        simp [stateTransfer, sendGetState, sendGetStateTo]
  · exact ⟨.refl r, rfl⟩

theorem startIfTimedOut_runs {r r' : Replica SM} {next : Replica SM → Option (Replica SM)}
    (run : r.startIfTimedOut next = some r') (status : r.status ≠ .recovering)
    (goesOn : ∀ waited : Replica SM, waited.peer = r.peer → next waited = some r' →
      Runs i waited r') : Runs i r r' := by
  unfold startIfTimedOut at run
  have waited : Runs i r r.waitTimedOut.1 := .same rfl fun _ mem => mem
  refine waited.trans ?_
  split at run
  · next timedOut isOut =>
    rw [isOut]
    have same : timedOut.peer = r.peer := by
      have : r.waitTimedOut.1.peer = r.peer := rfl
      rwa [isOut] at this
    refine startViewChange_runs run ?_ (Nat.lt_succ_self _)
    exact fun recovering => status ((congrArg (·.status) same).symm.trans recovering)
  · next waiting isWaiting =>
    rw [isWaiting]
    refine goesOn waiting ?_ run
    have : r.waitTimedOut.1.peer = r.peer := rfl
    rwa [isWaiting] at this

theorem backupOnIdle_runs {r r' : Replica SM} (run : r.backupOnIdle = some r')
    (status : r.status ≠ .recovering) : Runs i r r' := by
  obtain ⟨transfers, same⟩ := transferOnIdle_runs (i := i) (r := r)
  refine transfers.trans ?_
  unfold backupOnIdle hearOnIdle at run
  split at run
  · cases run
    exact .same rfl fun _ mem => mem
  · refine Runs.trans ?_ (startIfTimedOut_runs run ?_ fun waited _ same => ?_)
    · exact .same rfl fun _ mem => mem
    · rw [← same] at status
      exact status
    · cases same
      exact .refl _

theorem catchUpOnIdle_runs {r : Replica SM} (status : r.status = .viewChange) :
    Runs i r r.catchUpOnIdle ∧ r.catchUpOnIdle.status = .viewChange ∧
      r.catchUpOnIdle.catchingUp = r.catchingUp := by
  unfold catchUpOnIdle
  split
  · exact ⟨.refl r, status, rfl⟩
  · next replicaId asked =>
    obtain ⟨runs, fetch, peer⟩ := fetchOnIdle_runs (i := i) (r := r)
    split
    · next waited isWaiting =>
      rw [isWaiting] at runs peer
      exact ⟨runs, (congrArg (·.status) peer).trans status, congrArg (·.catchingUp) peer⟩
    · next waited isWaiting =>
      rw [isWaiting] at runs peer
      have away : waited.status = .viewChange := (congrArg (·.status) peer).trans status
      have same : waited.catchingUp = r.catchingUp := congrArg (·.catchingUp) peer
      refine ⟨runs.trans (.send ?_), ?_, ?_⟩
      · exact ⟨rfl, rfl, .inr ⟨.inl away, same.trans asked⟩⟩
      · simpa [sendGetStateTo] using away
      · simpa [sendGetStateTo] using same

theorem askAgain_runs {r : Replica SM} : Runs i r r.askAgain ∧ r.askAgain.toCore = r.toCore := by
  unfold askAgain
  split
  · exact ⟨sendToOthers_runs fun replicaId => ⟨rfl, rfl⟩, (sendToOthers_same _ _).core⟩
  · exact ⟨.refl r, rfl⟩

theorem viewChangeOnIdle_runs {r r' : Replica SM} (run : r.viewChangeOnIdle = some r')
    (status : r.status = .viewChange) : Runs i r r' := by
  refine startIfTimedOut_runs run (by simp [status]) fun waited same resend => ?_
  have away : waited.status = .viewChange := (congrArg (·.status) same).trans status
  obtain ⟨runs, still, _⟩ := catchUpOnIdle_runs (i := i) away
  obtain ⟨asks, core⟩ := askAgain_runs (i := i) (r := waited.catchUpOnIdle)
  refine runs.trans (asks.trans ?_)
  unfold resendViewChange at resend
  split at resend
  · next report =>
    refine sendDoViewChange_runs resend ?_ ?_
    · rw [core]
      exact still
    · rw [core]
      simpa using report.2
  · cases resend
    exact .refl _

/-- An idle period is by the protocol. -/
theorem onIdle_runs {r r' : Replica SM} (run : r.onIdle = some r') : Runs i r r' := by
  obtain ⟨serves, serving, peer⟩ := serveOnIdle_runs (i := i) (r := r)
  refine serves.trans ?_
  simp only [onIdle] at run
  split at run
  · next status =>
    split at run
    · next primary => exact primaryOnIdle_runs run status primary
    · exact backupOnIdle_runs run (by simp [status])
  · next status => exact backupOnIdle_runs run (by simp [status])
  · next status =>
    obtain ⟨runs, fetch, peer⟩ := fetchOnIdle_runs (i := i) (r := r.serveOnIdle)
    split at run
    · next waited isWaiting =>
      cases run
      rwa [isWaiting] at runs
    · next waited isWaiting =>
      cases run
      rw [isWaiting] at runs peer
      exact runs.trans (sendRecovery_runs ((congrArg (·.status) peer).trans status))
  · next status => exact viewChangeOnIdle_runs run status

/-! ## The owner's other calls -/

theorem compact_runs {r r' : Replica SM} {opNumber : Nat} (run : r.compact opNumber = some r') :
    Runs i r r' := by
  have bounds : ∀ bound, bound ≤ r.applied →
      (∀ checkpoint, r.peer.serving = some checkpoint → bound ≤ checkpoint) →
      (if bound ≤ r.logStart then some r
        else require (bound - r.logStart ≤ r.log.length) <|
          some { r with log := r.log.drop (bound - r.logStart), logStart := bound }) = some r' →
      Runs i r r' := by
    intro bound done kept run
    split at run
    · cases run
      exact .refl r
    · next held =>
      obtain ⟨within, run⟩ := require_eq_some.mp run
      cases run
      exact .act (Act.compact (p := r.peer) bound (not_le.mp held) done within kept)
        fun _ mem => mem
  unfold compact at run
  dsimp only at run
  cases serving : r.serving with
  | none =>
      rw [serving] at run
      refine bounds _ (Nat.min_le_right ..) ?_ run
      simp [Core.peer, serving]
  | some kept =>
      rw [serving] at run
      refine bounds _ ((Nat.min_le_left ..).trans (Nat.min_le_right ..)) ?_ run
      intro checkpoint isKept
      have : kept.1 = checkpoint := by simpa [Core.peer, serving] using isKept
      rw [← this]
      exact Nat.min_le_right ..

theorem drains_run (r : Replica SM) :
    Runs i r r.drainMessagesBeforePersist.1 ∧ Runs i r r.drainMessages.1 ∧
      Runs i r r.drainReplies.1 := by
  refine ⟨.same rfl ?_, .same rfl ?_, .same rfl fun _ mem => mem⟩
  all_goals
    intro envelope mem
    simp only [queued, drainMessagesBeforePersist, drainMessages, List.mem_append,
      List.not_mem_nil, false_or, or_false] at mem ⊢
    tauto

theorem applyCommitted_runs {r r' : Replica SM} {durable : Nat}
    (run : r.applyCommitted durable = some r') (isDurable : r.durableOp = some durable) :
    Runs i r r' := by
  obtain ⟨applied, peer, queued, bounds⟩ := applyCommitted_peer run
  refine .act ?_ (by rw [queued]; exact fun _ mem => mem)
  rw [peer]
  refine Act.execute applied (bounds.imp id ?_)
  rintro ⟨more, committed, durably, held⟩
  exact ⟨durable, isDurable, more, committed.trans (le_max_left _ _), durably, held⟩

/-- The replica once the write that is out is handed back, before it counts and
executes what that makes durable. -/
def handedBack (r : Replica SM) (outstanding : Outstanding) : Replica SM :=
  { r with outstanding := none, durable := outstanding.opNumber }

theorem commitUpTo_durableOp {r r' : Replica SM} {commitNumber : Nat} {reply : Bool}
    (run : r.commitUpTo commitNumber reply = some r') : r'.durableOp = r.durableOp := by
  obtain ⟨applied, peer, _⟩ := commitUpTo_peer run
  exact congrArg (fun p : Peer (Input SM) => p.durableOp) peer

theorem registerAck_durableOp {r r' : Replica SM} {replicaId opNumber : Nat}
    (run : r.registerAck replicaId opNumber = some r') : r'.durableOp = r.durableOp := by
  unfold registerAck at run
  obtain ⟨mark, _, run⟩ := Option.bind_eq_some_iff.mp run
  split at run
  · cases run
    rfl
  · have same := commitUpTo_durableOp run
    exact same

theorem persisted_runs {r r' : Replica SM} {write : LogWrite (Input SM)}
    (run : r.persisted write = some r')
    (holds : ∀ outstanding, r.outstanding = some outstanding →
      outstanding.lastNormalView = r.viewNumber → ∀ durable,
      (r.handedBack outstanding).durableOp = some durable → ∀ k ≤ durable,
      i.holds r.viewNumber k) :
    ∃ outstanding, r.outstanding = some outstanding ∧ outstanding.sequence = write.sequence ∧
      Runs i (r.handedBack outstanding) r' := by
  unfold persisted at run
  obtain ⟨outstanding, isOut, run⟩ := Option.bind_eq_some_iff.mp run
  obtain ⟨sequence, run⟩ := require_eq_some.mp run
  obtain ⟨durable, isDurable, run⟩ := Option.bind_eq_some_iff.mp run
  obtain ⟨acked, ack, run⟩ := Option.bind_eq_some_iff.mp run
  obtain ⟨applied, apply, run⟩ := Option.bind_eq_some_iff.mp run
  refine ⟨outstanding, isOut, sequence, ?_⟩
  have acks : Runs i (r.handedBack outstanding) acked ∧
      acked.durableOp = (r.handedBack outstanding).durableOp := by
    unfold ackOwn at ack
    split at ack
    · next primary =>
      exact ⟨registerAck_runs ack primary.1 primary.2.1
        (.inl ⟨rfl, holds outstanding isOut primary.2.2 durable isDurable⟩),
        registerAck_durableOp ack⟩
    · cases ack
      exact ⟨.refl _, rfl⟩
  refine acks.1.trans (Runs.trans (applyCommitted_runs apply (acks.2.trans isDurable)) ?_)
  cases run
  refine .same rfl fun envelope mem => ?_
  simp only [queued, releaseWaiting, List.mem_append, List.not_mem_nil] at mem ⊢
  tauto

theorem takeWrite_cases {r r' : Replica SM} {write : LogWrite (Input SM)}
    (run : r.takeWrite = some (r', write)) :
    r.outstanding = none ∧ ∃ durable, r.durableOp = some durable ∧
      r'.peer = { r.peer with
        logChangedFrom := none
        written := some
          { viewNumber := r.viewNumber, lastNormalView := r.lastNormalView
            recovering := decide (r.status = .recovering), logStart := r.logStart }
        writes := r.writes + 1
        outstanding := some
          { sequence := r.writes + 1, opNumber := r.opNumber, lastNormalView := r.lastNormalView }
        durable := durable } ∧
      (∀ envelope, envelope ∈ r'.queued ↔ envelope ∈ r.queued) := by
  obtain ⟨free, run⟩ := require_eq_some.mp run
  obtain ⟨durable, isDurable, run⟩ := Option.bind_eq_some_iff.mp run
  cases run
  refine ⟨free, durable, isDurable, rfl, fun envelope => ?_⟩
  simp only [queued, List.mem_append]
  tauto

end Vsr.Replica
