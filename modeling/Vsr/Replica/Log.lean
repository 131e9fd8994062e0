import Vsr.Replica.Execute

/-!
# Changing the log

Appending and merging entries, committing, installing the segments other
replicas send, keeping and fetching checkpoints, and entering and leaving views.
-/

set_option autoImplicit false

namespace Vsr.Replica

variable {SM : Type} [StateMachine SM]

/-- Appends `entry` to the log. -/
def appendToLog (r : Replica SM) (entry : EntryFor SM) : Replica SM :=
  { r with
    toWriteState := r.toWriteState.markLogChanged (r.opNumber + 1)
    clients := setPending r.clients (r.opNumber + 1) entry
    log := r.log ++ [entry] }

/-- Replaces the log after `start` with `entries`, up to which our entries agree
with the sender's.  Truncating the log subtracts its start. -/
def mergeLog (r : Replica SM) (start : Nat) (entries : List (EntryFor SM)) :
    Option (Replica SM) :=
  require (r.keepUpTo start ≤ r.opNumber) <|
    require (r.logStart ≤ r.keepUpTo start) <|
      require (r.commitNumber ≤ (r.toStanding.merged start entries).opNumber) <|
        { r with
          toStanding := r.toStanding.merged start entries
          toWriteState := r.toWriteState.markLogChanged (r.keepUpTo start + 1) }.rebuildPending

/-- The committed ops to reply to once `from .. commitNumber` is added: a commit
that follows the last extends its range. -/
def extendRanges (ranges : List (Nat × Nat)) (first last : Nat) :
    List (Nat × Nat) :=
  match ranges.getLast? with
  | some range =>
      if range.2 + 1 = first then ranges.dropLast ++ [(range.1, last)] else ranges ++ [(first, last)]
  | none => [(first, last)]

/-- Commits every op up to `commitNumber`, and executes those that a handed-back
write holds as memory does.  The commit number never moves backwards. -/
def commitUpTo (r : Replica SM) (commitNumber : Nat) (reply : Bool) : Option (Replica SM) :=
  if commitNumber ≤ r.commitNumber then some r
  else do
    let r := { r with
      replyRanges :=
        if reply then extendRanges r.replyRanges (r.commitNumber + 1) commitNumber
        else r.replyRanges
      commitNumber := commitNumber }
    let durable ← r.durableOp
    r.applyCommitted durable

/-- The highest of `marks` that at least `quorum` of them reach. -/
def quorumMark (quorum : Nat) (marks : List Nat) : Nat :=
  (marks.filter fun mark => quorum ≤ (marks.filter fun other => mark ≤ other).length).foldl max 0

/-- Registers that `replicaId` holds every op up to `opNumber`, and commits up to
the highest op number a quorum of replicas holds. -/
def registerAck (r : Replica SM) (replicaId : Nat) (opNumber : Nat) :
    Option (Replica SM) := do
  let opNumber := min opNumber r.opNumber
  let mark ← r.acked[replicaId]?
  if opNumber ≤ mark then some r
  else
    let r := { r with acked := r.acked.set replicaId opNumber }
    r.commitUpTo (quorumMark r.config.quorum r.acked) true

/-! ## Entering and leaving views -/

/-- Forgets the view change under way and the queries waiting on the last view. -/
def clearViewChangeState (r : Replica SM) : Replica SM :=
  { r with
    startViewChangeFrom := ∅
    doViewChangeSent := false
    doViewChangeFrom := ∅
    catchingUp := none
    fetch := none
    queries := []
    waiting := ∅
    round := 0
    roundConfirmed := 0
    confirmed := r.confirmed.map fun _ => 0
    roundUnsent := false }

/-- Returns to normal status in the current view. -/
def enterNormal (r : Replica SM) : Replica SM :=
  { r with
    status := .normal
    lastNormalView := r.viewNumber
    acked := r.acked.map fun _ => 0
    resendUpTo := r.commitNumber
    viewStartOp := r.opNumber
    heardFromPrimary := true
    idlePeriodsWaiting := 0
    idlePeriodsStable := 0 }.clearViewChangeState

/-- Learns that `viewNumber` has started, and asks its primary for the log from
our commit number on. -/
def catchUpWithView (r : Replica SM) (viewNumber : Nat) : Replica SM :=
  let primaryId := r.config.primaryId viewNumber
  if r.viewNumber = viewNumber ∧ r.catchingUp = some primaryId then r
  else
    let r := { r with viewNumber := viewNumber, status := .viewChange, idlePeriodsWaiting := 0 }
    let r := { r.clearViewChangeState with catchingUp := some primaryId }
    r.sendGetState r.commitNumber

/-- Asks the primary for the log after our op number. -/
def stateTransfer (r : Replica SM) : Replica SM :=
  let r := { r with status := .stateTransfer }
  r.sendGetState r.opNumber

/-! ## Installing segments -/

/-- Installs a segment received within our view, which extends our log if it
reaches beyond it. -/
def installSegmentInView (r : Replica SM) (segment : LogSegment (Input SM)) :
    Option (Installed (Replica SM) (Input SM)) :=
  if segment.endOp ≤ r.opNumber then some .nothing
  else
    match segment.base with
    | .checkpoint checkpoint =>
        if r.opNumber < checkpoint then some (.checkpoint segment)
        else (r.mergeLog checkpoint segment.entries).map .log
    | .op start =>
        if r.opNumber < start then some .nothing
        else (r.mergeLog start segment.entries).map .log

/-- Installs a segment we asked for from our commit number, which replaces
everything after it. -/
def installSegmentFromCommit (r : Replica SM) (segment : LogSegment (Input SM)) :
    Option (Installed (Replica SM) (Input SM)) :=
  match segment.base with
  | .checkpoint checkpoint =>
      if r.commitNumber < checkpoint then some (.checkpoint segment)
      else (r.mergeLog checkpoint segment.entries).map .log
  | .op start =>
      if r.commitNumber < start then some .nothing
      else (r.mergeLog start segment.entries).map .log

/-! ## Checkpoints -/

/-- The op number of the checkpoint this replica keeps for replicas that fell
behind, which it keeps from now on if it kept none. -/
def keepCheckpoint (r : Replica SM) : Option (Replica SM × Nat) :=
  match r.serving with
  | some (opNumber, _) => some (r, opNumber)
  | none =>
      let kept := StateMachine.checkpoint r.stateMachine
      require (r.logStart ≤ kept.2 ∧ kept.2 ≤ r.applied) <|
        some ({ r with stateMachine := kept.1, serving := some (kept.2, 0) }, kept.2)

/-- The log after `opNumber`, or, if that has been compacted, the log after the
checkpoint this replica keeps. -/
def segmentFrom (r : Replica SM) (opNumber : Nat) :
    Option (Replica SM × LogSegment (Input SM)) :=
  if r.logStart ≤ opNumber then some (r, ⟨.op opNumber, r.logFrom (opNumber + 1)⟩)
  else do
    let (r, checkpoint) ← r.keepCheckpoint
    some (r, ⟨.checkpoint checkpoint, r.logFrom (checkpoint + 1)⟩)

/-- Fetches from `source` the checkpoint the segment in `resume` follows. -/
def startFetch (r : Replica SM) (source : Nat) (resume : Resume (Input SM)) : Replica SM :=
  let fetch : Fetch (Input SM) :=
    { source := source, index := 0, idlePeriods := 0, stalled := false, resume := resume }
  let anew := { r with fetch := some fetch }
  match r.fetch with
  | none => anew.sendGetChunk
  | some fetch =>
      if fetch.source = source ∧ fetch.resume.checkpoint = resume.checkpoint then
        if fetch.stalled then
          let again := { fetch with resume := resume, stalled := false, idlePeriods := 0 }
          { r with fetch := some again }.sendGetChunk
        else
          let goesOn := { fetch with resume := resume }
          { r with fetch := some goesOn }
      else if resume.checkpoint < fetch.resume.checkpoint ∧ ¬fetch.stalled then r
      else anew.sendGetChunk

/-- Drops the checkpoint kept, if any. -/
def stopServing (r : Replica SM) : Replica SM :=
  if r.serving.isSome then
    { r with serving := none, stateMachine := StateMachine.releaseCheckpoint r.stateMachine }
  else r

/-- Makes the checkpoint staged at `opNumber` the state, and starts the log after
it. -/
def restoreCheckpoint (r : Replica SM) (opNumber : Nat) : Option (Replica SM) :=
  require (r.commitNumber < opNumber) <|
    let stopped := r.stopServing
    let restored := { stopped with
      toStanding := r.toStanding.restoredAt opNumber
      toWriteState := r.toWriteState.markLogChanged (opNumber + 1)
      replyRanges := []
      stateMachine := StateMachine.restore stopped.stateMachine opNumber }
    restored.loadClientTable.rebuildPending

end Vsr.Replica
