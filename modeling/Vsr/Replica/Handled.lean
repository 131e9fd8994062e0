import Vsr.Protocol.Dispatch
import Vsr.Replica.Moves

/-!
# Every handler is a sequence of moves
-/

set_option autoImplicit false

namespace Vsr.Replica

open Relation (ReflTransGen)

variable {SM : Type} [StateMachine SM] {heard : MessageFor SM → Prop} {r r' : Replica SM}

/-- A sequence of moves. -/
abbrev Moves (heard : MessageFor SM → Prop) : Replica SM → Replica SM → Prop :=
  ReflTransGen (Move heard)

namespace Handles

theorem refl (r : Replica SM) : Handles heard r r := ⟨r, .refl, .refl⟩

theorem moves (moves : Moves heard r r') : Handles heard r r' := ⟨r', moves, .refl⟩

theorem move (move : Move heard r r') : Handles heard r r' := moves (.single move)

theorem tell (tell : Tell r r') : Handles heard r r' := ⟨r, .refl, .single tell⟩

/-- Moves before a handler belong to it. -/
theorem after {m : Replica SM} (first : Moves heard r m) (rest : Handles heard m r') :
    Handles heard r r' := by
  obtain ⟨moved, moves, tells⟩ := rest
  exact ⟨moved, first.trans moves, tells⟩

end Handles

/-! ## Queueing messages -/

theorem Honest.same {message : MessageFor SM} (truthful : r.Honest message)
    (core : r'.toCore = r.toCore) (queries : r'.toQueryState = r.toQueryState) :
    r'.Honest message := by
  cases message <;> simp only [Honest, core, queries] at truthful ⊢ <;> exact truthful

theorem Holds.same {message : MessageFor SM} (holds : r.Holds message)
    (core : r'.toCore = r.toCore) : r'.Holds message := by
  cases message <;> simp only [Holds, Segment, core] at holds ⊢ <;> exact holds

theorem sendEach_moves {ids : List Nat} {message : MessageFor SM} (truthful : r.Honest message) :
    Moves heard r (r.sendEach ids message) := by
  unfold sendEach
  induction ids generalizing r with
  | nil => exact .refl
  | cons replicaId rest ih =>
      rw [List.foldl_cons]
      exact .head (.send replicaId message truthful)
        (ih (truthful.same (send_toCore _ _ _) (send_toQueryState _ _ _)))

theorem sendToOthers_moves {message : MessageFor SM} (truthful : r.Honest message) :
    Moves heard r (r.sendToOthers message) := sendEach_moves truthful

theorem sendPrepareOk_moves (status : r.status = .normal) : Moves heard r r.sendPrepareOk :=
  .head .supersede (.single (.send _ (.prepareOk r.viewNumber r.opNumber r.selfId) ⟨rfl, status⟩))

theorem sendGetChunk_moves : Moves heard r r.sendGetChunk := by
  unfold sendGetChunk
  split
  · exact .refl
  · exact .single (.send _ _ trivial)

theorem sendGetStateTo_moves {replicaId opNumber : Nat} :
    Moves heard r (r.sendGetStateTo replicaId opNumber) :=
  .single (.send replicaId (.getState r.selfId r.viewNumber opNumber) trivial)

theorem segment_whole (r : Replica SM) : r.Segment ⟨.op r.logStart, r.log⟩ := by
  refine ⟨?_, le_rfl, Nat.le_add_right _ _⟩
  simp [Standing.logFrom, LogSegment.start, LogBase.start]

theorem sendStartView_tells (replicaId : Nat) (status : r.status = .normal) :
    Tell r (r.sendStartView replicaId) :=
  .send replicaId _ ⟨rfl, status, segment_whole r⟩

theorem sendStartViews_tells {ids : List Nat} (status : r.status = .normal) :
    ReflTransGen Tell r (ids.foldl (fun r replicaId => r.sendStartView replicaId) r) := by
  induction ids generalizing r with
  | nil => exact .refl
  | cons replicaId rest ih =>
      rw [List.foldl_cons]
      refine .head (sendStartView_tells replicaId status) (ih ?_)
      simpa [sendStartView] using status

/-! ## Installing segments -/

theorem installed_log {segment : LogSegment (Input SM)}
    (run : r.installSegmentFromCommit segment = some (.log r')) :
    r.mergeLog segment.start segment.entries = some r' := by
  obtain ⟨base, entries⟩ := segment
  unfold installSegmentFromCommit at run
  cases base with
  | checkpoint checkpoint =>
      dsimp only at run
      split at run
      · cases run
      · obtain ⟨merged, merge, isMerged⟩ := Option.map_eq_some_iff.mp run
        cases isMerged
        exact merge
  | op start =>
      dsimp only at run
      split at run
      · cases run
      · obtain ⟨merged, merge, isMerged⟩ := Option.map_eq_some_iff.mp run
        cases isMerged
        exact merge

theorem installed_checkpoint {segment named : LogSegment (Input SM)}
    (run : r.installSegmentFromCommit segment = some (.checkpoint named)) :
    named = segment ∧ segment.base = .checkpoint segment.start ∧ r.commitNumber < segment.start := by
  obtain ⟨base, entries⟩ := segment
  unfold installSegmentFromCommit at run
  cases base with
  | checkpoint checkpoint =>
      dsimp only at run
      split at run
      · next beyond =>
        cases run
        exact ⟨rfl, rfl, beyond⟩
      · obtain ⟨merged, _, isMerged⟩ := Option.map_eq_some_iff.mp run
        cases isMerged
  | op start =>
      dsimp only at run
      split at run
      · cases run
      · obtain ⟨merged, _, isMerged⟩ := Option.map_eq_some_iff.mp run
        cases isMerged

theorem installedInView_log {segment : LogSegment (Input SM)}
    (run : r.installSegmentInView segment = some (.log r')) :
    r.mergeLog segment.start segment.entries = some r' := by
  obtain ⟨base, entries⟩ := segment
  unfold installSegmentInView at run
  split at run
  · cases run
  · cases base with
    | checkpoint checkpoint =>
        dsimp only at run
        split at run
        · cases run
        · obtain ⟨merged, merge, isMerged⟩ := Option.map_eq_some_iff.mp run
          cases isMerged
          exact merge
    | op start =>
        dsimp only at run
        split at run
        · cases run
        · obtain ⟨merged, merge, isMerged⟩ := Option.map_eq_some_iff.mp run
          cases isMerged
          exact merge

theorem installedInView_checkpoint {segment named : LogSegment (Input SM)}
    (run : r.installSegmentInView segment = some (.checkpoint named)) :
    named = segment ∧ segment.base = .checkpoint segment.start := by
  obtain ⟨base, entries⟩ := segment
  unfold installSegmentInView at run
  split at run
  · cases run
  · cases base with
    | checkpoint checkpoint =>
        dsimp only at run
        split at run
        · cases run
          exact ⟨rfl, rfl⟩
        · obtain ⟨merged, _, isMerged⟩ := Option.map_eq_some_iff.mp run
          cases isMerged
    | op start =>
        dsimp only at run
        split at run
        · cases run
        · obtain ⟨merged, _, isMerged⟩ := Option.map_eq_some_iff.mp run
          cases isMerged

/-- A merge changes the log and the pending keys only. -/
theorem mergeLog_same {start : Nat} {entries : List (EntryFor SM)}
    (run : r.mergeLog start entries = some r') :
    r'.status = r.status ∧ r'.viewNumber = r.viewNumber ∧ r'.fetch = r.fetch ∧
      r'.commitNumber = r.commitNumber := by
  obtain ⟨_, peer, _⟩ := mergeLog_peer run
  exact ⟨congrArg (·.status) peer, congrArg (·.viewNumber) peer, congrArg (·.fetch) peer,
    congrArg (·.commitNumber) peer⟩

theorem commitUpTo_same {commitNumber : Nat} {reply : Bool}
    (run : r.commitUpTo commitNumber reply = some r') :
    r'.status = r.status ∧ r'.viewNumber = r.viewNumber ∧ r'.fetch = r.fetch := by
  obtain ⟨applied, peer, _⟩ := commitUpTo_peer run
  exact ⟨congrArg (·.status) peer, congrArg (·.viewNumber) peer, congrArg (·.fetch) peer⟩

/-! ## Starting a view -/

theorem tryStartView_handles (run : r.tryStartView = some r') (status : r.status ≠ .normal) :
    Handles heard r r' := by
  unfold tryStartView at run
  obtain ⟨⟨bestId, best⟩, _, run⟩ := Option.bind_eq_some_iff.mp run
  obtain ⟨installed, install, run⟩ := Option.bind_eq_some_iff.mp run
  have ask : Move heard r { r with catchingUp := some bestId } :=
    .quiet (by constructor <;> rfl)
  cases installed with
  | log merged =>
      obtain ⟨committed, commit, run⟩ := Option.bind_eq_some_iff.mp run
      cases run
      have merge := installed_log install
      obtain ⟨sameStatus, _⟩ := mergeLog_same merge
      refine ⟨committed.enterNormal, .head (.merge merge) (.single ?_), sendStartViews_tells rfl⟩
      exact .enter merged.viewNumber le_rfl (.inr (sameStatus ▸ status)) commit
  | nothing =>
      cases run
      exact .moves (.head ask sendGetStateTo_moves)
  | checkpoint segment =>
      cases run
      exact .moves (.head ask sendGetStateTo_moves)

theorem recordDoViewChange_handles {replicaId : Nat} {dvc : DoViewChange (Input SM)}
    (run : r.recordDoViewChange replicaId dvc = some r') (status : r.status ≠ .normal) :
    Handles heard r r' := by
  unfold recordDoViewChange at run
  have record : Move heard r
      { r with doViewChangeFrom := r.doViewChangeFrom.insert replicaId dvc } :=
    .quiet (by constructor <;> rfl)
  dsimp only at run
  split at run
  · cases run
    exact .move record
  · exact .after (.single record) (tryStartView_handles run status)

theorem sendDoViewChange_handles (run : r.sendDoViewChange = some r')
    (status : r.status ≠ .normal) : Handles heard r r' := by
  unfold sendDoViewChange at run
  dsimp only at run
  split at run
  · exact recordDoViewChange_handles run status
  · cases run
    exact .tell (.send _ _ ⟨rfl, segment_whole r⟩)

theorem maybeSendDoViewChange_handles (run : r.maybeSendDoViewChange = some r') :
    Handles heard r r' := by
  unfold maybeSendDoViewChange at run
  split at run
  · cases run
    exact .refl r
  · next wants =>
    simp only [not_or, not_not] at wants
    split at run
    · cases run
      exact .refl r
    · refine .after (.single ?_) (sendDoViewChange_handles run ?_)
      · exact .quiet (by constructor <;> rfl)
      · show r.status ≠ .normal
        rw [wants.1]
        decide

/-- Leaves for a view, and asks the others to do the same. -/
theorem startViewChange_moves {viewNumber : Nat}
    (later : r.viewNumber < viewNumber ∨
      (r.viewNumber = viewNumber ∧ r.lastNormalView < viewNumber)) :
    Moves heard r ((r.leaveFor viewNumber).sendToOthers (.startViewChange viewNumber r.selfId)) :=
  .head (.leave later) (sendToOthers_moves rfl)

theorem startViewChange_left {viewNumber : Nat} (run : r.startViewChange viewNumber = some r') :
    Handles heard (r.leaveFor viewNumber) r' := by
  have asks : Moves heard (r.leaveFor viewNumber)
      ((r.leaveFor viewNumber).sendToOthers (.startViewChange viewNumber r.selfId)) :=
    sendToOthers_moves rfl
  exact .after asks (maybeSendDoViewChange_handles run)

theorem startViewChange_handles {viewNumber : Nat} (run : r.startViewChange viewNumber = some r')
    (later : r.viewNumber < viewNumber ∨
      (r.viewNumber = viewNumber ∧ r.lastNormalView < viewNumber)) : Handles heard r r' :=
  .after (.single (.leave later)) (startViewChange_left run)

/-- Nobody has joined a view change that has just begun. -/
theorem startViewChange_alone {viewNumber : Nat} (several : 2 ≤ r.config.quorum)
    (run : r.startViewChange viewNumber = some r') :
    r' = (r.leaveFor viewNumber).sendToOthers (.startViewChange viewNumber r.selfId) := by
  have core := (sendToOthers_same (r.leaveFor viewNumber)
    (.startViewChange viewNumber r.selfId)).core
  unfold startViewChange maybeSendDoViewChange at run
  split at run
  · cases run
    rfl
  · split at run
    · cases run
      rfl
    · next joined =>
      exfalso
      apply joined
      rw [core]
      show (∅ : Finset Nat).card < r.config.replicas.length / 2
      unfold Config.quorum at several
      rw [Finset.card_empty]
      omega

theorem catchUpWithView_moves {viewNumber : Nat}
    (later : r.viewNumber < viewNumber ∨ (r.viewNumber = viewNumber ∧ r.status = .viewChange)) :
    Moves heard r (r.catchUpWithView viewNumber) := by
  unfold catchUpWithView
  dsimp only
  split
  · exact .refl
  · exact .head (.turn _ later) sendGetStateTo_moves

theorem stateTransfer_moves
    (status : (r.status = .normal ∧ ¬r.isPrimary) ∨ r.status = .stateTransfer) :
    Moves heard r r.stateTransfer :=
  .head (.transfer status) sendGetStateTo_moves

/-! ## Normal operation -/

theorem prepare_moves (entry : EntryFor SM) : Moves heard r (r.prepare entry) :=
  .head (.append entry) (sendToOthers_moves trivial)

theorem onRegister_moves (clientId : Nat) : Moves heard r (r.onRegister clientId) := by
  unfold onRegister
  split
  · exact .refl
  · split
    · exact .single (.quiet (by constructor <;> rfl))
    · split
      · exact .refl
      · exact prepare_moves _

theorem resendReply_moves {record : ClientRecord (Output SM)} {clientId session requestNumber : Nat} :
    Moves heard r (r.resendReply record clientId session requestNumber) := by
  unfold resendReply
  dsimp only
  split
  · exact .single (.quiet (by constructor <;> rfl))
  · exact .refl

theorem onRequest_moves (clientId session requestNumber answered : Nat) (op : Input SM) :
    Moves heard r (r.onRequest clientId session requestNumber answered op) := by
  have append : ∀ (refuse : Prop) [Decidable refuse], Moves heard r
      (if refuse then r else r.prepare (.request clientId session requestNumber answered op)) := by
    intro refuse _
    split
    · exact .refl
    · exact prepare_moves _
  unfold onRequest
  split
  · exact .refl
  · split
    · split
      · exact .single (.quiet (by constructor <;> rfl))
      · exact .refl
    · split
      · exact resendReply_moves
      · dsimp only
        split
        · split
          · exact append _
          · split
            · exact .refl
            · exact append _
        · exact append _

/-- A message of the primary moves the replica to its view. -/
theorem acceptFromPrimary_moves {viewNumber : Nat} {accepted : Bool}
    (run : r.acceptFromPrimary viewNumber = (r', accepted)) : Moves heard r r' := by
  unfold acceptFromPrimary at run
  split at run
  · cases run
    exact .refl
  · split at run
    · next later =>
      cases run
      exact catchUpWithView_moves (.inl later)
    · next earlier later =>
      have hear : Move heard r { r with heardFromPrimary := true } :=
        .quiet (by constructor <;> rfl)
      dsimp only at run
      split at run
      · cases run
        exact .single hear
      · cases run
        exact .single hear
      · cases run
        exact .single hear
      · next status =>
        cases run
        refine .head hear (catchUpWithView_moves (.inr ⟨?_, status⟩))
        exact Nat.le_antisymm (not_lt.mp earlier) (not_lt.mp later)

theorem onPrepare_moves {viewNumber opNumber commitNumber : Nat} {entry : EntryFor SM}
    (run : r.onPrepare viewNumber opNumber entry commitNumber = some r') : Moves heard r r' := by
  unfold onPrepare at run
  split at run
  · next accept =>
    cases run
    exact acceptFromPrimary_moves accept
  · next accepted accept =>
    obtain ⟨status, backup, _⟩ := acceptFromPrimary_accepts accept
    refine (acceptFromPrimary_moves accept).trans ?_
    split at run
    · cases run
      exact stateTransfer_moves (.inl ⟨status, backup⟩)
    · obtain ⟨committed, commit, run⟩ := Option.bind_eq_some_iff.mp run
      cases run
      split at commit
      · have sameStatus := (commitUpTo_same commit).1
        exact .head (.append entry)
          (.head (.commit commit) (sendPrepareOk_moves (sameStatus.trans status)))
      · have sameStatus := (commitUpTo_same commit).1
        exact .head (.commit commit) (sendPrepareOk_moves (sameStatus.trans status))

/-- An acknowledgement counted either raises a mark and commits what a quorum
reaches, or changes nothing. -/
theorem registerAck_cases {replicaId opNumber : Nat}
    (run : r.registerAck replicaId opNumber = some r') :
    ∃ mark, r.acked[replicaId]? = some mark ∧
      ((min opNumber r.opNumber ≤ mark ∧ r' = r) ∨
        (mark < min opNumber r.opNumber ∧
          { r with acked := r.acked.set replicaId (min opNumber r.opNumber) }.commitUpTo
            (quorumMark r.config.quorum (r.acked.set replicaId (min opNumber r.opNumber))) true =
              some r')) := by
  unfold registerAck at run
  obtain ⟨mark, isMark, run⟩ := Option.bind_eq_some_iff.mp run
  refine ⟨mark, isMark, ?_⟩
  split at run
  · next covered =>
    cases run
    exact .inl ⟨covered, rfl⟩
  · next later => exact .inr ⟨not_le.mp later, run⟩

theorem onPrepareOk_moves {viewNumber opNumber replicaId : Nat}
    (run : r.onPrepareOk viewNumber opNumber replicaId = some r') : Moves heard r r' := by
  unfold onPrepareOk at run
  split at run
  · cases run
    exact .refl
  · exact .single (.count run)

theorem onCommit_moves {viewNumber commitNumber : Nat}
    (run : r.onCommit viewNumber commitNumber = some r') : Moves heard r r' := by
  unfold onCommit at run
  split at run
  · next accept =>
    cases run
    exact acceptFromPrimary_moves accept
  · next accept =>
    obtain ⟨status, backup, _⟩ := acceptFromPrimary_accepts accept
    refine (acceptFromPrimary_moves accept).trans ?_
    split at run
    · cases run
      exact stateTransfer_moves (.inl ⟨status, backup⟩)
    · exact .single (.commit run)

theorem onConfirmView_moves {viewNumber round : Nat} :
    Moves heard r (r.onConfirmView viewNumber round) := by
  unfold onConfirmView
  split
  · exact .refl
  · exact .single (.send _ _ trivial)

/-! ## State transfer -/

theorem keepCheckpoint_serving {opNumber : Nat} (run : r.keepCheckpoint = some (r', opNumber)) :
    r'.serving.map Prod.fst = some opNumber := by
  unfold keepCheckpoint at run
  split at run
  · next serving =>
    cases run
    rw [serving]
    rfl
  · obtain ⟨_, run⟩ := require_eq_some.mp run
    cases run
    rfl

theorem keepCheckpoint_same {opNumber : Nat} (run : r.keepCheckpoint = some (r', opNumber)) :
    r'.viewNumber = r.viewNumber ∧ r'.status = r.status := by
  unfold keepCheckpoint at run
  split at run
  · cases run
    exact ⟨rfl, rfl⟩
  · obtain ⟨_, run⟩ := require_eq_some.mp run
    cases run
    exact ⟨rfl, rfl⟩

/-- The segment sent is one of the log, or one after the checkpoint kept. -/
theorem segmentFrom_segment {opNumber : Nat} {segment : LogSegment (Input SM)}
    (run : r.segmentFrom opNumber = some (r', segment)) (held : opNumber ≤ r.opNumber) :
    r'.Segment segment ∧ r'.viewNumber = r.viewNumber ∧ r'.status = r.status := by
  unfold segmentFrom at run
  split at run
  · next inLog =>
    cases run
    exact ⟨⟨rfl, inLog, held⟩, rfl, rfl⟩
  · obtain ⟨⟨kept, checkpoint⟩, keep, run⟩ := Option.bind_eq_some_iff.mp run
    cases run
    exact ⟨⟨rfl, keepCheckpoint_serving keep⟩, keepCheckpoint_same keep⟩

theorem segmentFrom_moves {opNumber : Nat} {segment : LogSegment (Input SM)}
    (run : r.segmentFrom opNumber = some (r', segment)) : Moves heard r r' := by
  unfold segmentFrom at run
  split at run
  · cases run
    exact .refl
  · obtain ⟨⟨kept, checkpoint⟩, keep, run⟩ := Option.bind_eq_some_iff.mp run
    cases run
    exact .single (.keep keep)

theorem onGetState_handles {replicaId viewNumber opNumber : Nat}
    (run : r.onGetState replicaId viewNumber opNumber = some r') : Handles heard r r' := by
  unfold onGetState at run
  split at run
  · cases run
    exact .refl r
  · next due =>
    simp only [not_or, not_not, not_lt] at due
    split at run
    · cases run
      exact .refl r
    · obtain ⟨⟨kept, segment⟩, segmentFrom, run⟩ := Option.bind_eq_some_iff.mp run
      cases run
      obtain ⟨isSegment, _⟩ := segmentFrom_segment segmentFrom due.2
      exact .after (segmentFrom_moves segmentFrom) (.tell (.send _ _ isSegment))

theorem onGetChunk_moves {replicaId opNumber index : Nat} :
    Moves heard r (r.onGetChunk replicaId opNumber index) := by
  unfold onGetChunk
  split
  · exact .refl
  · next serving =>
    split
    · exact .refl
    · refine .head (.quiet ?_) (.single (.send _ _ trivial))
      constructor <;> simp only [serving, Option.map_some]

theorem newStateInstalled_handles {commitNumber : Nat}
    (run : r.newStateInstalled commitNumber = some r') : Handles heard r r' := by
  have drop : Move heard r { r with fetch := none } := .refetch .drop
  unfold newStateInstalled at run
  dsimp only at run
  split at run
  · next status =>
    obtain ⟨committed, commit, run⟩ := Option.bind_eq_some_iff.mp run
    cases run
    obtain ⟨sameStatus, _, sameFetch⟩ := commitUpTo_same commit
    refine .moves (.head drop (.head (.commit commit) (.head ?_ (sendPrepareOk_moves rfl))))
    exact .rejoin (sameStatus.trans status) sameFetch
  · next status =>
    have settle : Move heard { r with fetch := none } { r with fetch := none, catchingUp := none } :=
      .quiet (by constructor <;> rfl)
    have outside : r.status ≠ .normal := by
      rw [status]
      decide
    refine .after (.head drop (.single settle)) ?_
    split at run
    · exact tryStartView_handles run outside
    · obtain ⟨committed, commit, run⟩ := Option.bind_eq_some_iff.mp run
      cases run
      refine .moves (.head ?_ (sendPrepareOk_moves rfl))
      exact .enter r.viewNumber le_rfl (.inr outside) commit
  · cases run
  · cases run

/-- A fetch begins, or goes on with a message that names its checkpoint. -/
theorem startFetch_moves {source : Nat} {resume : Resume (Input SM)} (names : r.Names resume) :
    Moves heard r (r.startFetch source resume) := by
  unfold startFetch
  set first : Fetch (Input SM) :=
    { source := source, index := 0, idlePeriods := 0, stalled := false, resume := resume }
  have anew : Moves heard r { r with fetch := some first }.sendGetChunk :=
    .head (.refetch (.anew rfl names)) sendGetChunk_moves
  dsimp only
  split
  · exact anew
  · next fetch isFetch =>
    split
    · next same =>
      split
      · have again : r.Refetch
            (some { fetch with resume := resume, stalled := false, idlePeriods := 0 }) :=
          .goOn isFetch rfl rfl same.2.symm (.inr names)
        exact .head (.refetch again) sendGetChunk_moves
      · have goesOn : r.Refetch (some { fetch with resume := resume }) :=
          .goOn isFetch rfl rfl same.2.symm (.inr names)
        exact .single (.refetch goesOn)
    · split
      · exact .refl
      · exact anew

theorem onNewState_handles {replicaId viewNumber commitNumber : Nat}
    {segment : LogSegment (Input SM)}
    (run : r.onNewState replicaId viewNumber segment commitNumber = some r') :
    Handles heard r r' := by
  have hear : Move heard r { r with heardFromPrimary := true } := .quiet (by constructor <;> rfl)
  have names : r.status ≠ .normal → ∀ {named : LogSegment (Input SM)},
      named.base = .checkpoint named.start →
      Names { r with heardFromPrimary := true } (.newState viewNumber named commitNumber) :=
    fun away _ base => ⟨away, base, nofun⟩
  unfold onNewState at run
  split at run
  · cases run
    exact .refl r
  · refine .after (.single hear) ?_
    dsimp only at run
    split at run
    · next status =>
      obtain ⟨installed, install, run⟩ := Option.bind_eq_some_iff.mp run
      cases installed with
      | log merged =>
          exact .after (.single (.merge (installedInView_log install)))
            (newStateInstalled_handles run)
      | nothing =>
          cases run
          exact .refl _
      | checkpoint named =>
          cases run
          obtain ⟨rfl, base⟩ := installedInView_checkpoint install
          exact .moves (startFetch_moves (names (status.trans_ne (by decide)) base))
    · next status =>
      split at run
      · obtain ⟨installed, install, run⟩ := Option.bind_eq_some_iff.mp run
        cases installed with
        | log merged =>
            exact .after (.single (.merge (installed_log install))) (newStateInstalled_handles run)
        | nothing =>
            cases run
            exact .refl _
        | checkpoint named =>
            cases run
            obtain ⟨rfl, base, _⟩ := installed_checkpoint install
            exact .moves (startFetch_moves (names (status.trans_ne (by decide)) base))
      · cases run
        exact .refl _
    · cases run
      exact .refl _
    · cases run
      exact .refl _

/-! ## Recovery -/

theorem onRecovery_handles {replicaId nonce viewNumber : Nat}
    (run : r.onRecovery replicaId nonce viewNumber = some r') : Handles heard r r' := by
  unfold onRecovery at run
  split at run
  · next later => exact startViewChange_handles run (.inl later.1)
  · split at run
    · cases run
      exact .refl r
    · next status =>
      rw [not_not] at status
      split at run
      · obtain ⟨⟨kept, segment⟩, segmentFrom, run⟩ := Option.bind_eq_some_iff.mp run
        cases run
        obtain ⟨isSegment, _, sameStatus⟩ := segmentFrom_segment segmentFrom (Nat.zero_le _)
        refine .after (segmentFrom_moves segmentFrom) (.tell (.send _ _ ⟨rfl, ?_, ?_⟩))
        · exact sameStatus.trans status
        · rintro told ⟨⟩
          exact isSegment
      · cases run
        exact .tell (.send _ _ ⟨rfl, status, nofun⟩)

/-- A recovery goes on with the state it was sent, or fetches the checkpoint that
state follows. -/
theorem recoverInto_handles {viewNumber : Nat} {state : RecoveryState (Input SM)}
    (run : r.recoverInto viewNumber state = some r') (status : r.status = .recovering)
    (later : r.viewNumber ≤ viewNumber) : Handles heard r r' := by
  unfold recoverInto at run
  obtain ⟨installed, install, run⟩ := Option.bind_eq_some_iff.mp run
  cases installed with
  | log merged =>
      obtain ⟨committed, commit, run⟩ := Option.bind_eq_some_iff.mp run
      cases run
      have merge := installed_log install
      obtain ⟨sameStatus, sameView, _⟩ := mergeLog_same merge
      refine .moves (.head (.merge merge) (.single (.enter viewNumber ?_ (.inr ?_) commit)))
      · rwa [sameView]
      · rw [sameStatus, status]
        decide
  | checkpoint segment =>
      cases run
      obtain ⟨rfl, base, _⟩ := installed_checkpoint install
      refine .moves (startFetch_moves ⟨status.trans_ne (by decide), base, ?_⟩)
      rintro _ _ ⟨⟩
      exact ⟨status, later⟩
  | nothing => cases run

theorem onRecoveryResponse_handles {viewNumber nonce replicaId : Nat}
    {state : Option (RecoveryState (Input SM))}
    (run : r.onRecoveryResponse viewNumber nonce replicaId state = some r') :
    Handles heard r r' := by
  unfold onRecoveryResponse at run
  split at run
  · cases run
    exact .refl r
  · next takes =>
    simp only [not_or, not_not] at takes
    have collect : Move heard r { r with
        recoveryResponses := r.recoveryResponses.insert replicaId ⟨viewNumber, state⟩ } :=
      .quiet (by constructor <;> rfl)
    refine .after (.single collect) ?_
    dsimp only at run
    split at run
    · cases run
      exact .refl _
    · split at run
      · cases run
        exact .refl _
      · next later =>
        split at run
        · split at run
          · cases run
            exact .refl _
          · refine .after (.single (.quiet (by constructor <;> rfl)))
              (recoverInto_handles run takes.1 ?_)
            exact not_lt.mp later
        · cases run
          exact .refl _

/-! ## Fetching a checkpoint -/

theorem restoreCheckpoint_same {opNumber : Nat} (run : r.restoreCheckpoint opNumber = some r') :
    r'.status = r.status ∧ r'.viewNumber = r.viewNumber ∧ r'.fetch = r.fetch ∧
      r'.commitNumber = opNumber := by
  obtain ⟨_, run⟩ := require_eq_some.mp run
  have core := (rebuildPending_same run).core
  have stopped : ∀ s : Replica SM, s.stopServing.status = s.status ∧
      s.stopServing.viewNumber = s.viewNumber ∧ s.stopServing.fetch = s.fetch := by
    intro s
    unfold stopServing
    split <;> exact ⟨rfl, rfl, rfl⟩
  refine ⟨congrArg (·.status) core, congrArg (·.viewNumber) core, ?_, congrArg (·.commitNumber) core⟩
  exact (congrArg (·.fetch) core).trans (stopped r).2.2

/-- A checkpoint restored with its last chunk takes the replica on to what the
message that named it asks for. -/
theorem onNewChunk_handles {replicaId opNumber index : Nat} {chunk : Chunk SM} {last : Bool}
    (run : r.onNewChunk replicaId opNumber index chunk last = some r')
    (isHeard : heard (.newChunk replicaId opNumber index chunk last)) (fetches : r.Fetches) :
    Handles heard r r' := by
  unfold onNewChunk at run
  split at run
  · cases run
    exact .refl r
  · next fetch isFetch =>
    split at run
    · cases run
      exact .refl r
    · next awaited =>
      simp only [not_or, not_not] at awaited
      obtain ⟨isSource, isCheckpoint, isIndex⟩ := awaited
      subst isSource isCheckpoint isIndex
      have names := fetches fetch isFetch
      have stage : Move heard r _ :=
        .stage isHeard (if last then fetch.index else fetch.index + 1)
          { r.toTimers with
            idlePeriodsWaiting :=
              if r.catchingUp = some fetch.source then 0 else r.idlePeriodsWaiting
            heardFromPrimary :=
              if r.primaryId = fetch.source then true else r.heardFromPrimary } isFetch
      refine .after (.single stage) ?_
      dsimp only at run
      split at run
      · cases run
        exact .moves sendGetChunk_moves
      · next isLast =>
        rw [Bool.not_eq_true, Bool.not_eq_false'] at isLast
        subst isLast
        refine .after (.single (.refetch .drop)) ?_
        split at run
        · cases run
          exact .refl _
        · obtain ⟨restored, restore, run⟩ := Option.bind_eq_some_iff.mp run
          obtain ⟨sameStatus, sameView, _⟩ := restoreCheckpoint_same restore
          refine .after (.single (.restore isHeard names.away restore)) ?_
          cases isResume : fetch.resume with
          | newState viewNumber segment commitNumber =>
              simp only [isResume] at run
              split at run
              · obtain ⟨merged, merge, run⟩ := Option.bind_eq_some_iff.mp run
                exact .after (.single (.merge merge)) (newStateInstalled_handles run)
              · cases run
                exact .refl _
          | recoveryResponse viewNumber state =>
              simp only [isResume] at run
              obtain ⟨status, later⟩ := names.recovering viewNumber state isResume
              exact recoverInto_handles run (sameStatus.trans status) (sameView.trans_le later)

/-! ## View changes -/

theorem onStartViewChange_handles {viewNumber replicaId : Nat} (several : 2 ≤ r.config.quorum)
    (run : r.onStartViewChange viewNumber replicaId = some r') : Handles heard r r' := by
  have joins : ∀ {m : Replica SM},
      { m with startViewChangeFrom := insert replicaId m.startViewChangeFrom
        }.maybeSendDoViewChange = some r' → Handles heard m r' := fun run =>
    .after (.single (.quiet (by constructor <;> rfl))) (maybeSendDoViewChange_handles run)
  unfold onStartViewChange at run
  dsimp only at run
  split at run
  · cases run
    exact .refl r
  · split at run
    · next later =>
      obtain ⟨left, leave, run⟩ := Option.bind_eq_some_iff.mp run
      rw [startViewChange_alone several leave] at run
      exact .after (startViewChange_moves (.inl later)) (joins run)
    · split at run
      · split at run
        · next started =>
          cases run
          exact .tell (sendStartView_tells replicaId started.1)
        · cases run
          exact .refl r
      · exact joins run

theorem onDoViewChange_handles {viewNumber replicaId : Nat} {dvc : DoViewChange (Input SM)}
    (several : 2 ≤ r.config.quorum)
    (run : r.onDoViewChange viewNumber replicaId dvc = some r') : Handles heard r r' := by
  unfold onDoViewChange at run
  split at run
  · cases run
    exact .refl r
  · split at run
    · next later =>
      obtain ⟨left, leave, run⟩ := Option.bind_eq_some_iff.mp run
      rw [startViewChange_alone several leave] at run
      refine .after (startViewChange_moves (.inl later)) (recordDoViewChange_handles run ?_)
      rw [(sendToOthers_same _ _).core]
      exact nofun
    · split at run
      · next status =>
        cases run
        exact .tell (sendStartView_tells replicaId status)
      · next status => exact recordDoViewChange_handles run status

theorem onStartView_handles {viewNumber commitNumber : Nat} {segment : LogSegment (Input SM)}
    (run : r.onStartView viewNumber segment commitNumber = some r') : Handles heard r r' := by
  unfold onStartView at run
  split at run
  · cases run
    exact .refl r
  · next takes =>
    simp only [not_or, not_lt, not_and, not_not] at takes
    obtain ⟨notEarlier, wants⟩ := takes
    have later : r.viewNumber < viewNumber ∨
        (r.viewNumber = viewNumber ∧ r.status = .viewChange) := by
      rcases Nat.lt_or_eq_of_le notEarlier with earlier | same
      · exact .inl earlier
      · exact .inr ⟨same, wants same.symm⟩
    obtain ⟨installed, install, run⟩ := Option.bind_eq_some_iff.mp run
    cases installed with
    | log merged =>
        obtain ⟨committed, commit, run⟩ := Option.bind_eq_some_iff.mp run
        cases run
        have merge := installed_log install
        obtain ⟨sameStatus, sameView, _⟩ := mergeLog_same merge
        refine .moves (.head (.merge merge) (.head (.enter viewNumber ?_ ?_ commit)
          (sendPrepareOk_moves rfl)))
        · rwa [sameView]
        · rw [sameView, sameStatus]
          rcases later with earlier | ⟨_, status⟩
          · exact .inl earlier
          · right
            rw [status]
            decide
    | nothing =>
        cases run
        exact .moves (catchUpWithView_moves later)
    | checkpoint segment =>
        cases run
        exact .moves (catchUpWithView_moves later)

/-! ## Dispatch -/

theorem onMessage_handles {message : MessageFor SM} (run : r.onMessage message = some r')
    (several : 2 ≤ r.config.quorum) (isHeard : heard message) (fetches : r.Fetches) :
    Handles heard r r' := by
  unfold onMessage at run
  split at run
  · cases run
    exact .refl r
  · cases message with
    | register clientId =>
        cases run
        exact .moves (onRegister_moves clientId)
    | request clientId session requestNumber answered op =>
        cases run
        exact .moves (onRequest_moves clientId session requestNumber answered op)
    | query clientId queryNumber query => exact .move (.query run)
    | confirmView viewNumber round =>
        cases run
        exact .moves onConfirmView_moves
    | confirmViewOk viewNumber round replicaId => exact .move (.confirm isHeard run)
    | prepare viewNumber opNumber entry commitNumber => exact .moves (onPrepare_moves run)
    | prepareOk viewNumber opNumber replicaId => exact .moves (onPrepareOk_moves run)
    | commit viewNumber commitNumber => exact .moves (onCommit_moves run)
    | getState replicaId viewNumber opNumber => exact onGetState_handles run
    | newState replicaId viewNumber segment commitNumber => exact onNewState_handles run
    | getChunk replicaId opNumber index =>
        cases run
        exact .moves onGetChunk_moves
    | newChunk replicaId opNumber index chunk last =>
        exact onNewChunk_handles run isHeard fetches
    | startViewChange viewNumber replicaId => exact onStartViewChange_handles several run
    | doViewChange viewNumber replicaId lastNormalView segment commitNumber =>
        exact onDoViewChange_handles several run
    | startView viewNumber segment commitNumber => exact onStartView_handles run
    | recovery replicaId nonce viewNumber => exact onRecovery_handles run
    | recoveryResponse viewNumber nonce replicaId state => exact onRecoveryResponse_handles run

end Vsr.Replica
