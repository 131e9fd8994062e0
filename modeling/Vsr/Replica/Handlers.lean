import Vsr.Replica.Log

/-!
# The message handlers

Normal operation, queries, state transfer, view changes and recovery, in the
order of `lib.rs`, and `on_message`, which picks the handler.
-/

set_option autoImplicit false

namespace Vsr.Replica

open Std (ExtTreeMap)

variable {SM : Type} [StateMachine SM]

/-! ## Starting a view -/

/-- `max_by_key`: the last of those that rank highest. -/
def bestOf {Op : Type} : List (Nat × DoViewChange Op) → Option (Nat × DoViewChange Op)
  | [] => none
  | first :: rest =>
      some (rest.foldl (fun best next =>
        if DoViewChange.rankLe best.2 next.2 then next else best) first)

/-- Starts the view from the log with the latest normal view among the
`DoViewChange` messages, the longest if several.  If the sender has compacted
entries beyond our commit number, asks it for them first. -/
def tryStartView (r : Replica SM) : Option (Replica SM) := do
  let (bestId, best) ← bestOf r.doViewChangeFrom.toList
  let installed ← r.installSegmentFromCommit best.segment
  match installed with
  | .log installed =>
      let commitNumber := (r.doViewChangeFrom.toList.map (·.2.commitNumber)).foldl max 0
      let r ← installed.commitUpTo commitNumber true
      let r := r.enterNormal
      some (r.others.foldl (fun r replicaId => r.sendStartView replicaId) r)
  | _ =>
      let r := { r with catchingUp := some bestId }
      some (r.sendGetStateTo bestId r.commitNumber)

/-- Records a `DoViewChange` and, with a quorum of them, starts the view. -/
def recordDoViewChange (r : Replica SM) (replicaId : Nat) (dvc : DoViewChange (Input SM)) :
    Option (Replica SM) :=
  let r := { r with doViewChangeFrom := r.doViewChangeFrom.insert replicaId dvc }
  if r.doViewChangeFrom.size < r.config.quorum then some r else r.tryStartView

/-- Sends our state to the new view's primary, or records it directly if that is
us. -/
def sendDoViewChange (r : Replica SM) : Option (Replica SM) :=
  let dvc : DoViewChange (Input SM) :=
    { lastNormalView := r.lastNormalView
      segment := ⟨.op r.logStart, r.log⟩
      commitNumber := r.commitNumber }
  if r.primaryId = r.selfId then r.recordDoViewChange r.selfId dvc
  else
    some (r.send r.primaryId
      (.doViewChange r.viewNumber r.selfId dvc.lastNormalView dvc.segment dvc.commitNumber))

/-- Sends `DoViewChange` once `f` other replicas want the same view. -/
def maybeSendDoViewChange (r : Replica SM) : Option (Replica SM) :=
  if r.status ≠ .viewChange ∨ r.catchingUp.isSome ∨ r.doViewChangeSent then some r
  else if r.startViewChangeFrom.card < r.config.replicas.length / 2 then some r
  else { r with doViewChangeSent := true }.sendDoViewChange

/-- The state in which a view change to `viewNumber` begins.  One entered from
another one means that the previous one did not complete: wait longer. -/
def leaveFor (r : Replica SM) (viewNumber : Nat) : Replica SM :=
  { r with
    viewChangeAttempts :=
      if r.status = Status.viewChange then r.viewChangeAttempts + 1 else r.viewChangeAttempts
    viewNumber := viewNumber
    status := Status.viewChange
    idlePeriodsWaiting := 0 }.clearViewChangeState

/-- Moves to `viewNumber` and asks the other replicas to do the same. -/
def startViewChange (r : Replica SM) (viewNumber : Nat) : Option (Replica SM) :=
  ((r.leaveFor viewNumber).sendToOthers
    (.startViewChange viewNumber r.selfId)).maybeSendDoViewChange

/-! ## Normal operation -/

/-- Appends `entry` to the log and sends it to the backups. -/
def prepare (r : Replica SM) (entry : EntryFor SM) : Replica SM :=
  let r := r.appendToLog entry
  r.sendToOthers (.prepare r.viewNumber r.opNumber entry r.commitNumber)

/-- A client asks the primary for a session. -/
def onRegister (r : Replica SM) (clientId : Nat) : Replica SM :=
  if ¬r.isPrimary ∨ r.status ≠ .normal then r
  else
    match r.record clientId with
    | some record =>
        { r with replies := r.replies ++ [.registered r.viewNumber clientId record.session] }
    | none =>
        if (r.clientState clientId).pending.any fun key => key.2 = 0 then r
        else r.prepare (.register clientId)

/-- Answers a re-send of an executed request, while the table keeps its result. -/
def resendReply (r : Replica SM) (record : ClientRecord (Output SM)) (clientId : Nat)
    (session : Nat) (requestNumber : Nat) : Replica SM :=
  let behind := record.requestNumber - requestNumber
  match (checkedSub record.replies.length (behind + 1)).bind fun index => record.replies[index]? with
  | some result =>
      { r with
        replies := r.replies ++ [.executed r.viewNumber clientId session requestNumber result] }
  | none => r

/-- The client sends a request to the primary, which appends only the session's
next one. -/
def onRequest (r : Replica SM) (clientId : Nat) (session : Nat)
    (requestNumber answered : Nat) (op : Input SM) : Replica SM :=
  if ¬r.isPrimary ∨ r.status ≠ .normal then r
  else
    match (r.record clientId).filter (·.session = session) with
    | none =>
        -- The registration has executed here and its record is gone: evicted.
        if session ≤ r.applied then
          { r with replies := r.replies ++ [.evicted r.viewNumber clientId session] }
        else r
    | some record =>
        if requestNumber ≤ record.requestNumber then
          r.resendReply record clientId session requestNumber
        else
          let append (latest : Nat) : Replica SM :=
            if requestNumber ≠ latest + 1 ∨
                requestNumber > record.requestNumber + r.config.inFlightMax then r
            else r.prepare (.request clientId session requestNumber answered op)
          match (r.clientState clientId).pending with
          | some (pendingSession, pending) =>
              if pendingSession = session then append pending
              else if session < pendingSession then r
              else append record.requestNumber
          | none => append record.requestNumber

/-- Checks a `Prepare` or `Commit` from the primary of `viewNumber` against our
view and status, and says whether to process it as a normal-case message. -/
def acceptFromPrimary (r : Replica SM) (viewNumber : Nat) : Replica SM × Bool :=
  if viewNumber < r.viewNumber then (r, false)
  else if r.viewNumber < viewNumber then (r.catchUpWithView viewNumber, false)
  else
    let r := { r with heardFromPrimary := true }
    match r.status with
    | .normal => (r, ¬r.isPrimary)
    | .stateTransfer => (r, false)
    | .recovering => (r, false)
    | .viewChange => (r.catchUpWithView viewNumber, false)

/-- A backup appends the next entry of the primary's log and acknowledges what
it holds. -/
def onPrepare (r : Replica SM) (viewNumber : Nat) (opNumber : Nat)
    (entry : EntryFor SM) (commitNumber : Nat) : Option (Replica SM) :=
  match r.acceptFromPrimary viewNumber with
  | (r, false) => some r
  | (r, true) =>
      if r.opNumber + 1 < opNumber then some r.stateTransfer
      else do
        let r := if opNumber = r.opNumber + 1 then r.appendToLog entry else r
        let r ← r.commitUpTo (min commitNumber r.opNumber) false
        some r.sendPrepareOk

/-- The primary counts a backup's acknowledgement. -/
def onPrepareOk (r : Replica SM) (viewNumber : Nat) (opNumber : Nat)
    (replicaId : Nat) : Option (Replica SM) :=
  if viewNumber ≠ r.viewNumber ∨ ¬r.isPrimary ∨ r.status ≠ .normal ∨
      r.acked.length ≤ replicaId then some r
  else r.registerAck replicaId opNumber

/-- The primary's heartbeat, which carries its commit number. -/
def onCommit (r : Replica SM) (viewNumber : Nat) (commitNumber : Nat) :
    Option (Replica SM) :=
  match r.acceptFromPrimary viewNumber with
  | (r, false) => some r
  | (r, true) =>
      if r.opNumber < commitNumber then some r.stateTransfer
      else r.commitUpTo commitNumber false

/-! ## Queries -/

/-- Starts the next round of view confirmations. -/
def startRound (r : Replica SM) : Option (Replica SM) :=
  require (r.selfId < r.confirmed.length) <|
    let r := { r with
      round := r.round + 1
      roundUnsent := true
      confirmed := r.confirmed.set r.selfId (r.round + 1) }
    some (r.sendToOthers (.confirmView r.viewNumber r.round))

/-- The round a query that arrives now waits for: the last one while its
`ConfirmView` has not left, a new one, or, with `roundsOut` out, the next. -/
def roundForQuery (r : Replica SM) : Option (Replica SM × Nat) :=
  if r.roundUnsent then some (r, r.round)
  else do
    let out ← checkedSub r.round r.roundConfirmed
    if out < roundsOut then
      let r ← r.startRound
      some (r, r.round)
    else some (r, r.round + 1)

/-- A client asks the primary to answer a query, which waits for a round of view
confirmations and for the ops that may have completed. -/
def onQuery (r : Replica SM) (clientId : Nat) (queryNumber : Nat)
    (query : Query SM) : Option (Replica SM) :=
  if ¬r.isPrimary ∨ r.status ≠ .normal ∨ (clientId, queryNumber) ∈ r.waiting then some r
  else do
    let r := { r with waiting := insert (clientId, queryNumber) r.waiting }
    let (r, round) ← r.roundForQuery
    some { r with
      queries := r.queries ++
        [{ clientId := clientId, queryNumber := queryNumber, query := query
           opNumber := max r.commitNumber r.viewStartOp, round := round }] }

/-- A backup confirms a round of the primary's view while it is in that view. -/
def onConfirmView (r : Replica SM) (viewNumber : Nat) (round : Nat) : Replica SM :=
  if viewNumber ≠ r.viewNumber ∨ r.isPrimary then r
  else r.sendToPrimary (.confirmViewOk viewNumber round r.selfId)

/-- Starts the next round if queries wait for it: a round that ended makes room. -/
def startRoundIfAwaited (r : Replica SM) : Option (Replica SM) :=
  if r.queries.getLast?.any fun query => r.round < query.round then r.startRound else some r

/-- The primary counts a backup's confirmation, and once a quorum has confirmed a
later round, starts the next if queries wait for it and answers those that may
go. -/
def onConfirmViewOk (r : Replica SM) (viewNumber : Nat) (round : Nat)
    (replicaId : Nat) : Option (Replica SM) :=
  if viewNumber ≠ r.viewNumber ∨ ¬r.isPrimary ∨ r.status ≠ .normal ∨
      r.confirmed.length ≤ replicaId ∨ r.round < round ∨
      round ≤ (r.confirmed[replicaId]?).getD 0 then some r
  else
    let counted := { r with confirmed := r.confirmed.set replicaId round }
    let roundConfirmed := quorumMark r.config.quorum counted.confirmed
    if roundConfirmed ≤ r.roundConfirmed then some counted
    else
      { counted with roundConfirmed := roundConfirmed }.startRoundIfAwaited.map executeQueries

/-! ## State transfer -/

/-- Whether the log is settled: in normal status, or in a view change once
`DoViewChange` is sent. -/
def settled (r : Replica SM) : Bool :=
  match r.status with
  | .normal => true
  | .viewChange => r.doViewChangeSent && r.catchingUp.isNone
  | .stateTransfer => false
  | .recovering => false

/-- Answers a `GetState` while the log is settled. -/
def onGetState (r : Replica SM) (replicaId : Nat) (viewNumber : Nat)
    (opNumber : Nat) : Option (Replica SM) :=
  if viewNumber ≠ r.viewNumber ∨ r.opNumber < opNumber then some r
  else if !r.settled then some r
  else do
    let (r, segment) ← r.segmentFrom opNumber
    some (r.send replicaId (.newState r.selfId viewNumber segment r.commitNumber))

/-- Answers a replica fetching the checkpoint this replica keeps. -/
def onGetChunk (r : Replica SM) (replicaId : Nat) (opNumber : Nat) (index : Nat) :
    Replica SM :=
  match r.serving with
  | none => r
  | some (kept, _) =>
      if kept ≠ opNumber then r
      else
        let chunk := StateMachine.checkpointChunk r.stateMachine index
        let r := { r with serving := some (kept, 0) }
        r.send replicaId (.newChunk r.selfId opNumber index chunk.1 chunk.2)

/-- Goes on from a `NewState` whose segment the log now holds. -/
def newStateInstalled (r : Replica SM) (commitNumber : Nat) : Option (Replica SM) :=
  let r := { r with fetch := none }
  match r.status with
  | .stateTransfer => do
      let r ← r.commitUpTo commitNumber false
      some { r with status := .normal }.sendPrepareOk
  | .viewChange =>
      let r := { r with catchingUp := none }
      if r.isPrimary ∧ r.config.quorum ≤ r.doViewChangeFrom.size then r.tryStartView
      else do
        let r ← r.commitUpTo commitNumber false
        some r.enterNormal.sendPrepareOk
  | .normal => none
  | .recovering => none

/-- A replica receives the log it asked for. -/
def onNewState (r : Replica SM) (replicaId : Nat) (viewNumber : Nat)
    (segment : LogSegment (Input SM)) (commitNumber : Nat) : Option (Replica SM) :=
  if viewNumber ≠ r.viewNumber then some r
  else
    let r := { r with heardFromPrimary := true }
    let goOn (installed : Installed (Replica SM) (Input SM)) : Option (Replica SM) :=
      match installed with
      | .log r => r.newStateInstalled commitNumber
      | .nothing => some r
      | .checkpoint segment =>
          some (r.startFetch replicaId (.newState viewNumber segment commitNumber))
    match r.status with
    | .stateTransfer => (r.installSegmentInView segment).bind goOn
    | .viewChange =>
        if r.catchingUp.isSome then (r.installSegmentFromCommit segment).bind goOn else some r
    | .normal => some r
    | .recovering => some r

/-! ## Recovery -/

/-- A replica in normal status answers a recovering replica with its view; if it
is the primary, with its state too. -/
def onRecovery (r : Replica SM) (replicaId : Nat) (nonce : Nat)
    (viewNumber : Nat) : Option (Replica SM) :=
  if r.viewNumber < viewNumber ∧ r.status ≠ .recovering then r.startViewChange viewNumber
  else if r.status ≠ .normal then some r
  else if r.isPrimary then do
    let (r, segment) ← r.segmentFrom 0
    some (r.send replicaId
      (.recoveryResponse r.viewNumber nonce r.selfId (some ⟨segment, r.commitNumber⟩)))
  else some (r.send replicaId (.recoveryResponse r.viewNumber nonce r.selfId none))

/-- Takes the state the primary of `viewNumber` sent, fetching the checkpoint it
names first if that is beyond ours, and is back in that view. -/
def recoverInto (r : Replica SM) (viewNumber : Nat) (state : RecoveryState (Input SM)) :
    Option (Replica SM) := do
  let installed ← r.installSegmentFromCommit state.segment
  match installed with
  | .log r =>
      let r ← { r with viewNumber := viewNumber }.commitUpTo state.commitNumber false
      some r.enterNormal
  | .checkpoint segment =>
      some (r.startFetch (r.config.primaryId viewNumber)
        (.recoveryResponse viewNumber ⟨segment, state.commitNumber⟩))
  | .nothing => none

/-- Collects recovery responses.  With a quorum of them, including one from the
primary of the latest view among them, the replica takes that primary's state. -/
def onRecoveryResponse (r : Replica SM) (viewNumber : Nat) (nonce : Nat)
    (replicaId : Nat) (state : Option (RecoveryState (Input SM))) : Option (Replica SM) :=
  if r.status ≠ .recovering ∨ nonce ≠ r.recoveryNonce then some r
  else
    let r := { r with
      recoveryResponses := r.recoveryResponses.insert replicaId ⟨viewNumber, state⟩ }
    if r.recoveryResponses.size < r.config.quorum then some r
    else
      let latestView := (r.recoveryResponses.toList.map (·.2.viewNumber)).foldl max 0
      if latestView < r.viewNumber then some r
      else
        match r.recoveryResponses[r.config.primaryId latestView]? with
        | some ⟨primaryView, some state⟩ =>
            if primaryView ≠ latestView then some r
            else { r with recoveryResponses := ∅ }.recoverInto latestView state
        | _ => some r

/-- Stages a chunk of the checkpoint under way and asks for the next, or, with
the last one staged, restores the checkpoint and goes on with the message that
named it. -/
def onNewChunk (r : Replica SM) (replicaId : Nat) (opNumber : Nat) (index : Nat)
    (chunk : Chunk SM) (last : Bool) : Option (Replica SM) :=
  match r.fetch with
  | none => some r
  | some fetch =>
      if fetch.source ≠ replicaId ∨ fetch.resume.checkpoint ≠ opNumber ∨ fetch.index ≠ index then
        some r
      else
        let next := { fetch with
          idlePeriods := 0
          stalled := false
          index := if last then fetch.index else fetch.index + 1 }
        let r := { r with
          fetch := some next
          stateMachine := StateMachine.stageChunk r.stateMachine opNumber index chunk
          idlePeriodsWaiting :=
            if r.catchingUp = some replicaId then 0 else r.idlePeriodsWaiting
          heardFromPrimary := if r.primaryId = replicaId then true else r.heardFromPrimary }
        if !last then some r.sendGetChunk
        else
          let r := { r with fetch := none }
          if opNumber ≤ r.commitNumber then some r
          else do
            let r ← r.restoreCheckpoint opNumber
            match fetch.resume with
            | .newState viewNumber segment commitNumber =>
                if viewNumber = r.viewNumber then do
                  let r ← r.mergeLog opNumber segment.entries
                  r.newStateInstalled commitNumber
                else some r
            | .recoveryResponse viewNumber state => r.recoverInto viewNumber state

/-! ## View changes -/

/-- A replica asks the others to move to a new view. -/
def onStartViewChange (r : Replica SM) (viewNumber : Nat) (replicaId : Nat) :
    Option (Replica SM) :=
  let join (r : Replica SM) : Option (Replica SM) :=
    { r with startViewChangeFrom := insert replicaId r.startViewChangeFrom }.maybeSendDoViewChange
  if viewNumber < r.viewNumber then some r
  else if r.viewNumber < viewNumber then (r.startViewChange viewNumber).bind join
  else if r.status ≠ .viewChange then
    -- The view has started; its primary repeats `StartView` to a sender that missed it.
    if r.status = .normal ∧ r.isPrimary then some (r.sendStartView replicaId) else some r
  else join r

/-- Replicas that know a majority wants the new view send their state to its
primary. -/
def onDoViewChange (r : Replica SM) (viewNumber : Nat) (replicaId : Nat)
    (dvc : DoViewChange (Input SM)) : Option (Replica SM) :=
  if viewNumber < r.viewNumber ∨ r.config.primaryId viewNumber ≠ r.selfId then some r
  else if r.viewNumber < viewNumber then
    (r.startViewChange viewNumber).bind fun r => r.recordDoViewChange replicaId dvc
  else if r.status = .normal then some (r.sendStartView replicaId)
  else r.recordDoViewChange replicaId dvc

/-- The new primary starts the view with the log it chose, which replaces ours. -/
def onStartView (r : Replica SM) (viewNumber : Nat) (segment : LogSegment (Input SM))
    (commitNumber : Nat) : Option (Replica SM) :=
  if viewNumber < r.viewNumber ∨ (viewNumber = r.viewNumber ∧ r.status ≠ .viewChange) then some r
  else do
    let installed ← r.installSegmentFromCommit segment
    match installed with
    | .log r =>
        let r ← { r with viewNumber := viewNumber }.commitUpTo commitNumber false
        some r.enterNormal.sendPrepareOk
    | _ => some (r.catchUpWithView viewNumber)

/-! ## Dispatch -/

/-- What a recovering replica acts on: recovery responses, and the chunks of a
checkpoint one named. -/
def actedOnRecovering : MessageFor SM → Bool
  | .recoveryResponse .. => true
  | .newChunk .. => true
  | _ => false

/-- The main entry point to replica logic. -/
def onMessage (r : Replica SM) (message : MessageFor SM) : Option (Replica SM) :=
  if r.status = .recovering ∧ !actedOnRecovering message then some r
  else
    match message with
    | .register clientId => some (r.onRegister clientId)
    | .request clientId session requestNumber answered op =>
        some (r.onRequest clientId session requestNumber answered op)
    | .query clientId queryNumber query => r.onQuery clientId queryNumber query
    | .confirmView viewNumber round => some (r.onConfirmView viewNumber round)
    | .confirmViewOk viewNumber round replicaId => r.onConfirmViewOk viewNumber round replicaId
    | .prepare viewNumber opNumber entry commitNumber =>
        r.onPrepare viewNumber opNumber entry commitNumber
    | .prepareOk viewNumber opNumber replicaId => r.onPrepareOk viewNumber opNumber replicaId
    | .commit viewNumber commitNumber => r.onCommit viewNumber commitNumber
    | .getState replicaId viewNumber opNumber => r.onGetState replicaId viewNumber opNumber
    | .newState replicaId viewNumber segment commitNumber =>
        r.onNewState replicaId viewNumber segment commitNumber
    | .getChunk replicaId opNumber index => some (r.onGetChunk replicaId opNumber index)
    | .newChunk replicaId opNumber index chunk last =>
        r.onNewChunk replicaId opNumber index chunk last
    | .startViewChange viewNumber replicaId => r.onStartViewChange viewNumber replicaId
    | .doViewChange viewNumber replicaId lastNormalView segment commitNumber =>
        r.onDoViewChange viewNumber replicaId ⟨lastNormalView, segment, commitNumber⟩
    | .startView viewNumber segment commitNumber => r.onStartView viewNumber segment commitNumber
    | .recovery replicaId nonce viewNumber => r.onRecovery replicaId nonce viewNumber
    | .recoveryResponse viewNumber nonce replicaId state =>
        r.onRecoveryResponse viewNumber nonce replicaId state

end Vsr.Replica
