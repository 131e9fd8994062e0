import Vsr.Replica.Handlers

/-!
# What the owner calls

`recover` and `restart`, `on_idle`, the write taken and handed back, compaction,
and the drains.
-/

set_option autoImplicit false

namespace Vsr.Replica

variable {SM : Type} [StateMachine SM]

/-! ## Idle periods -/

/-- Counts an idle period of the checkpoint kept for replicas that fell behind. -/
def serveOnIdle (r : Replica SM) : Replica SM :=
  match r.serving with
  | none => r
  | some (opNumber, idlePeriods) =>
      if 2 * r.config.primaryTimeout ≤ idlePeriods + 1 then
        { r with
          serving := none, stateMachine := StateMachine.releaseCheckpoint r.stateMachine }
      else { r with serving := some (opNumber, idlePeriods + 1) }

/-- Counts an idle period of the fetch under way, and says whether one is. -/
def fetchOnIdle (r : Replica SM) : Replica SM × Bool :=
  match r.fetch with
  | none => (r, false)
  | some fetch =>
      if fetch.stalled then (r, false)
      else
        let waited := { fetch with idlePeriods := fetch.idlePeriods + 1 }
        if 2 * r.config.primaryTimeout ≤ waited.idlePeriods then
          ({ r with fetch := some { waited with stalled := true } }, false)
        else
          let r := { r with fetch := some waited }
          (if 1 < waited.idlePeriods then r.sendGetChunk else r, true)

/-- Counts an idle period of stable normal operation. -/
def noteStable (r : Replica SM) : Replica SM :=
  let stable := r.idlePeriodsStable + 1
  { r with
    idlePeriodsStable := stable
    viewChangeAttempts := if r.config.primaryTimeout ≤ stable then 0 else r.viewChangeAttempts }

/-- Counts an idle period spent waiting, and says whether the wait has gone on
for long enough: doubled for every view change entered since normal status was
stable. -/
def waitTimedOut (r : Replica SM) : Replica SM × Bool :=
  let waiting := r.idlePeriodsWaiting + 1
  let backoff := min r.viewChangeAttempts 10
  ({ r with idlePeriodsWaiting := waiting }, r.config.primaryTimeout <<< backoff ≤ waiting)

/-- Re-sends the entry at `due`, which has had a whole idle period to be
acknowledged, to the backups that have not acknowledged it. -/
def resendPrepare (r : Replica SM) (due : Nat) : Option (Replica SM) :=
  if r.commitNumber < due then
    (r.entry due).map fun entry =>
      r.sendEach (r.others.filter fun replicaId => (r.acked[replicaId]?).getD 0 < due)
        (.prepare r.viewNumber due entry r.commitNumber)
  else some r

/-- Re-sends the last round's `ConfirmView` to those that have not confirmed it. -/
def resendRound (r : Replica SM) : Replica SM :=
  if r.roundConfirmed < r.round then
    r.sendEach ((List.range r.config.replicas.length).filter fun replicaId =>
        (r.confirmed[replicaId]?).getD 0 < r.round)
      (.confirmView r.viewNumber r.round)
  else r

/-- The primary's idle period: a heartbeat, one re-sent `Prepare`, and the last
round again. -/
def primaryOnIdle (r : Replica SM) : Option (Replica SM) :=
  let beaten := r.noteStable.sendToOthers (.commit r.viewNumber r.commitNumber)
  ({ beaten with resendUpTo := r.opNumber }.resendPrepare (min r.resendUpTo r.opNumber)).map
    resendRound

/-- Asks for state again in a state transfer whose fetch is not under way. -/
def transferOnIdle (r : Replica SM) : Replica SM :=
  if r.status = .stateTransfer then
    match r.fetchOnIdle with
    | (r, true) => r
    | (r, false) => r.stateTransfer
  else r

/-- Starts the next view change if the wait has timed out. -/
def startIfTimedOut (r : Replica SM) (next : Replica SM → Option (Replica SM)) :
    Option (Replica SM) :=
  match r.waitTimedOut with
  | (r, true) => r.startViewChange (r.viewNumber + 1)
  | (r, false) => next r

/-- Counts an idle period in which the primary was heard from, or was not. -/
def hearOnIdle (r : Replica SM) : Option (Replica SM) :=
  if r.heardFromPrimary then
    some { r with heardFromPrimary := false, idlePeriodsWaiting := 0 }.noteStable
  else { r with idlePeriodsStable := 0 }.startIfTimedOut some

/-- A backup's idle period, in normal status or waiting for a state transfer. -/
def backupOnIdle (r : Replica SM) : Option (Replica SM) := r.transferOnIdle.hearOnIdle

/-- Asks again for the log this replica is catching up with. -/
def catchUpOnIdle (r : Replica SM) : Replica SM :=
  match r.catchingUp with
  | none => r
  | some replicaId =>
      match r.fetchOnIdle with
      | (r, true) => r
      | (r, false) => r.sendGetStateTo replicaId r.commitNumber

/-- Asks the others again to move to the view it wants; a replica catching up with
a view that has started has nothing to ask. -/
def askAgain (r : Replica SM) : Replica SM :=
  if r.catchingUp.isNone ∨ r.doViewChangeSent then
    r.sendToOthers (.startViewChange r.viewNumber r.selfId)
  else r

/-- Re-sends the view change messages. -/
def resendViewChange (r : Replica SM) : Option (Replica SM) :=
  if r.doViewChangeSent ∧ r.catchingUp.isNone then r.askAgain.sendDoViewChange
  else some r.askAgain

/-- An idle period in a view change. -/
def viewChangeOnIdle (r : Replica SM) : Option (Replica SM) :=
  r.startIfTimedOut fun r => r.catchUpOnIdle.resendViewChange

/-- Called at a regular interval: drives retransmission and the timers. -/
def onIdle (r : Replica SM) : Option (Replica SM) :=
  let r := r.serveOnIdle
  match r.status with
  | .normal => if r.isPrimary then r.primaryOnIdle else r.backupOnIdle
  | .stateTransfer => r.backupOnIdle
  | .recovering =>
      match r.fetchOnIdle with
      | (r, true) => some r
      | (r, false) => some r.sendRecovery
  | .viewChange => r.viewChangeOnIdle

/-! ## Coming back -/

/-- Creates a replica that is back from a crash with no memory. -/
def recover (selfId : Nat) (config : Config) (stateMachine : SM)
    (viewNumber : Nat) (nonce : Nat) : Option (Replica SM) := do
  let r ← new selfId config stateMachine
  some { r with
    status := .recovering, viewNumber := viewNumber, recoveryNonce := nonce }.sendRecovery

/-- The replica `restart` builds from the persisted state before it executes
anything: a state machine ahead of the log's commit number takes the place of
the entries it has applied. -/
def restored (selfId : Nat) (config : Config) (stateMachine : SM) (applied : Nat)
    (state : PersistentState (Input SM)) (nonce : Nat) : Option (Replica SM) :=
  if state.recovering then do
    let r ← recover selfId config stateMachine state.viewNumber nonce
    some { r with logStart := applied, commitNumber := applied }
  else do
    let r ← new selfId config stateMachine
    let r := { r with viewNumber := state.viewNumber, lastNormalView := state.lastNormalView }
    if state.commitNumber < applied then do
      let drained ← checkedSub applied state.logStart
      some { r with
        logStart := applied
        commitNumber := applied
        log := state.log.drop (min drained state.log.length) }
    else
      require (state.logStart ≤ applied) <|
        some { r with
          logStart := state.logStart, commitNumber := state.commitNumber, log := state.log }

/-- Creates a replica that is back from a crash with the state the owner
persisted for it, and a state machine that has applied the first `applied`
operations. -/
def restart (selfId : Nat) (config : Config) (stateMachine : SM) (applied : Nat)
    (state : PersistentState (Input SM)) (nonce : Nat) : Option (Replica SM) := do
  let r ← restored selfId config stateMachine applied state nonce
  let r := { r with
    applied := applied
    written := some
      { viewNumber := state.viewNumber
        lastNormalView := state.lastNormalView
        recovering := state.recovering
        logStart := state.logStart } }
  let r := r.loadClientTable
  require (r.commitNumber ≤ r.opNumber) do
    let r := { r with durable := r.opNumber }
    let r ← r.applyCommitted r.durable
    let r ← r.rebuildPending
    if r.status = .recovering then some r
    else if state.lastNormalView < state.viewNumber then r.startViewChange state.viewNumber
    else if r.isPrimary then r.startViewChange (state.viewNumber + 1)
    else some r

/-! ## Persistence -/

/-- What the steps since the last write changed, for the owner to persist. -/
def takeWrite (r : Replica SM) : Option (Replica SM × LogWrite (Input SM)) :=
  require (r.outstanding = none) do
    let opNumber := r.opNumber
    let durable ← r.durableOp
    let entriesFrom := match r.logChangedFrom with
      | none => opNumber + 1
      | some changed => max changed (r.logStart + 1)
    let recovering : Bool := r.status = .recovering
    let written : Written :=
      { viewNumber := r.viewNumber
        lastNormalView := r.lastNormalView
        recovering := recovering
        logStart := r.logStart }
    let sync : Bool := r.logChangedFrom.isSome || r.written ≠ some written
    let write : LogWrite (Input SM) :=
      { viewNumber := r.viewNumber
        lastNormalView := r.lastNormalView
        recovering := recovering
        commitNumber := r.commitNumber
        logStart := r.logStart
        entriesFrom := entriesFrom
        entries := r.logFrom entriesFrom
        sync := sync
        opNumber := opNumber
        sequence := r.writes + 1 }
    some ({ r with
        durable := durable
        logChangedFrom := none
        written := some written
        writes := r.writes + 1
        outstanding := some
          { sequence := r.writes + 1
            opNumber := opNumber
            lastNormalView := r.lastNormalView }
        outbox := r.outboxWaiting
        outboxWaiting := r.outbox }, write)

/-- The primary counts its own acknowledgement for what a write taken while it
was normal in the current view holds. -/
def ackOwn (r : Replica SM) (writtenIn : Nat) (durable : Nat) : Option (Replica SM) :=
  if r.status = .normal ∧ r.isPrimary ∧ writtenIn = r.viewNumber then
    r.registerAck r.selfId durable
  else some r

/-- Releases the messages that waited for the write handed back. -/
def releaseWaiting (r : Replica SM) : Replica SM :=
  { r with outboxReady := r.outboxReady ++ r.outboxWaiting, outboxWaiting := [] }

/-- Tells the replica that `write`, the one it has out, is durable, or needed no
sync. -/
def persisted (r : Replica SM) (write : LogWrite (Input SM)) : Option (Replica SM) := do
  let outstanding ← r.outstanding
  require (outstanding.sequence = write.sequence) do
    let back := { r with outstanding := none, durable := outstanding.opNumber }
    let durable ← back.durableOp
    let acked ← back.ackOwn outstanding.lastNormalView durable
    let applied ← acked.applyCommitted durable
    some applied.releaseWaiting

/-- Drops the log entries up to `opNumber` from memory, at most those the state
machine has applied and none after the checkpoint kept. -/
def compact (r : Replica SM) (opNumber : Nat) : Option (Replica SM) :=
  let bound := min opNumber r.applied
  let bound := match r.serving with
    | some (kept, _) => min bound kept
    | none => bound
  if bound ≤ r.logStart then some r
  else
    require (bound - r.logStart ≤ r.log.length) <|
      some { r with log := r.log.drop (bound - r.logStart), logStart := bound }

/-! ## Drains -/

/-- Messages that may be sent before the step is persisted. -/
def drainMessagesBeforePersist (r : Replica SM) : Replica SM × List (Envelope SM) :=
  ({ r with roundUnsent := false, outboxEarly := [] }, r.outboxEarly)

/-- Messages that need not wait for a write, and those whose write was handed
back. -/
def drainMessages (r : Replica SM) : Replica SM × List (Envelope SM) :=
  ({ r with roundUnsent := false, outboxEarly := [], outboxReady := [] },
    r.outboxEarly ++ r.outboxReady)

/-- Replies to send to clients. -/
def drainReplies (r : Replica SM) : Replica SM × List (Reply (Output SM)) :=
  ({ r with replies := [] }, r.replies)

end Vsr.Replica
