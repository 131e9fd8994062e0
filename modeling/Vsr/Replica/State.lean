import Vsr.Types

/-!
# The state of a replica

The fields of `Replica`, grouped by what they serve, its constructor, the
outboxes, and the read-only accessors.
-/

set_option autoImplicit false

namespace Vsr

open Std (ExtTreeMap)

/-- What a replica is doing. -/
inductive Status where
  | normal
  | stateTransfer
  | recovering
  | viewChange
  deriving DecidableEq, Repr

/-- The most rounds of view confirmations the primary has out at a time. -/
def roundsOut : Nat := 32

/-- What the replica recorded of the write it has out. -/
structure Outstanding where
  sequence : Nat
  opNumber : Nat
  lastNormalView : Nat
  deriving DecidableEq, Repr

/-- What a write records besides the log, to tell what changed since. -/
structure Written where
  viewNumber : Nat
  lastNormalView : Nat
  recovering : Bool
  logStart : Nat
  deriving DecidableEq, Repr

/-- A message that named a checkpoint to fetch. -/
inductive Resume (Op : Type) where
  | newState (viewNumber : Nat) (segment : LogSegment Op) (commitNumber : Nat)
  | recoveryResponse (viewNumber : Nat) (state : RecoveryState Op)
  deriving DecidableEq, Repr

/-- The op number of the checkpoint the message named. -/
def Resume.checkpoint {Op : Type} : Resume Op → Nat
  | .newState _ segment _ => segment.start
  | .recoveryResponse _ state => state.segment.start

/-- A checkpoint a replica fetches, one chunk at a time. -/
structure Fetch (Op : Type) where
  source : Nat
  index : Nat
  idlePeriods : Nat
  stalled : Bool
  resume : Resume Op
  deriving DecidableEq, Repr

/-- What installing a segment came to, with the replica it leaves. -/
inductive Installed (R Op : Type) where
  | log (replica : R)
  | nothing
  | checkpoint (segment : LogSegment Op)

/-- A query waiting on the primary for its round and its op. -/
structure WaitingQuery (Query : Type) where
  clientId : Nat
  queryNumber : Nat
  query : Query
  opNumber : Nat
  round : Nat
  deriving DecidableEq, Repr

/-- What a replica knows of a client: its session in the client table, and the
key of its latest entry in the log after `applied`. -/
structure ClientState (Output : Type) where
  record : Option (ClientRecord Output) := none
  pending : Option (Nat × Nat) := none
  deriving DecidableEq, Repr

/-- What a replica reported in a `DoViewChange` message. -/
structure DoViewChange (Op : Type) where
  lastNormalView : Nat
  segment : LogSegment Op
  commitNumber : Nat
  deriving DecidableEq, Repr

/-- Whether `b` ranks at least as high as `a`: by the latest normal view, then by
the end of the log. -/
def DoViewChange.rankLe {Op : Type} (a b : DoViewChange Op) : Prop :=
  a.lastNormalView < b.lastNormalView ∨
    (a.lastNormalView = b.lastNormalView ∧ a.segment.endOp ≤ b.segment.endOp)

instance {Op : Type} (a b : DoViewChange Op) : Decidable (DoViewChange.rankLe a b) :=
  inferInstanceAs (Decidable (_ ∨ _))

/-- What a recovering replica keeps of a `RecoveryResponse`. -/
structure RecoveryResponse (Op : Type) where
  viewNumber : Nat
  state : Option (RecoveryState Op)
  deriving DecidableEq, Repr

/-! ## The fields -/

/-- The view, the log and how far it is committed and executed. -/
structure Standing (Op : Type) where
  status : Status
  viewNumber : Nat
  lastNormalView : Nat
  commitNumber : Nat
  applied : Nat
  logStart : Nat
  log : List (LogEntry Op)

/-- What the next write must hold, and what the writes handed back hold. -/
structure WriteState where
  logChangedFrom : Option Nat
  written : Option Written
  writes : Nat
  outstanding : Option Outstanding
  durable : Nat

/-- What the primary counts in its view. -/
structure AckState where
  replyRanges : List (Nat × Nat)
  acked : List Nat
  resendUpTo : Nat
  viewStartOp : Nat

/-- The queries waiting on the primary and the rounds of view confirmations. -/
structure QueryState (Query : Type) where
  queries : List (WaitingQuery Query)
  waiting : Finset (Nat × Nat)
  round : Nat
  roundConfirmed : Nat
  confirmed : List Nat
  roundUnsent : Bool

/-- What the replica knows of the clients, and the state machine. -/
structure ClientTable (SM : Type) [StateMachine SM] where
  stateMachine : SM
  clients : ExtTreeMap Nat (ClientState (Output SM))
  sessions : Nat
  evictionCandidates : List (Nat × Nat)

structure Timers where
  heardFromPrimary : Bool
  idlePeriodsWaiting : Nat
  viewChangeAttempts : Nat
  idlePeriodsStable : Nat

/-- The view change under way. -/
structure ViewChangeState (Op : Type) where
  startViewChangeFrom : Finset Nat
  doViewChangeSent : Bool
  doViewChangeFrom : ExtTreeMap Nat (DoViewChange Op)
  catchingUp : Option Nat

/-- Checkpoints kept for others and fetched from them, and the recovery. -/
structure TransferState (Op : Type) where
  serving : Option (Nat × Nat)
  fetch : Option (Fetch Op)
  recoveryNonce : Nat
  recoveryResponses : ExtTreeMap Nat (RecoveryResponse Op)

/-- Messages by the write they wait for, and the replies to clients. -/
structure Outboxes (SM : Type) [StateMachine SM] where
  outboxEarly : List (Envelope SM)
  outbox : List (Envelope SM)
  outboxWaiting : List (Envelope SM)
  outboxReady : List (Envelope SM)
  replies : List (Reply (Output SM))

/-- The part of a replica's state the protocol turns on. -/
structure Core (Op : Type) extends
    Standing Op, WriteState, AckState, ViewChangeState Op, TransferState Op where
  config : Config
  selfId : Nat

structure Replica (SM : Type) [StateMachine SM] extends
    Core (Input SM), ClientTable SM, QueryState (Query SM), Timers, Outboxes SM

/-! ## Accessors -/

namespace Standing
variable {Op : Type}

/-- The op number of the last log entry. -/
def opNumber (s : Standing Op) : Nat := s.logStart + s.log.length

/-- The log entries from `opNumber` on, or from the first one held. -/
def logFrom (s : Standing Op) (opNumber : Nat) : List (LogEntry Op) :=
  s.log.drop (min (opNumber - (s.logStart + 1)) s.log.length)

/-- The entry with op number `opNumber`. -/
def entry (s : Standing Op) (opNumber : Nat) : Option (LogEntry Op) := do
  let index ← checkedSub opNumber (s.logStart + 1)
  s.log[index]?

/-- The op number up to which a merge from `start` keeps the log. -/
def keepUpTo (s : Standing Op) (start : Nat) : Nat := max start s.commitNumber

/-- The log after `start` replaced with `entries`; the committed entries stay. -/
def merged (s : Standing Op) (start : Nat) (entries : List (LogEntry Op)) : Standing Op :=
  { s with
    log := s.log.take (s.keepUpTo start - s.logStart) ++ entries.drop (s.keepUpTo start - start) }

/-- The log starting after the checkpoint at `opNumber`. -/
def restoredAt (s : Standing Op) (opNumber : Nat) : Standing Op :=
  { s with
    commitNumber := opNumber, applied := opNumber, logStart := opNumber, log := [] }

/-- Everything the owner persists, as of now. -/
def persistentState (s : Standing Op) : PersistentState Op where
  viewNumber := s.viewNumber
  lastNormalView := s.lastNormalView
  commitNumber := s.commitNumber
  logStart := s.logStart
  log := s.log
  recovering := s.status = .recovering

end Standing

/-- The op number up to which the handed-back writes hold the log as memory
does. -/
def WriteState.durableOp (w : WriteState) : Option Nat :=
  match w.logChangedFrom with
  | none => some w.durable
  | some changed => do
      let before ← checkedSub changed 1
      some (min w.durable before)

/-- Records that the entries from `opNumber` on have changed. -/
def WriteState.markLogChanged (w : WriteState) (opNumber : Nat) : WriteState :=
  { w with
    logChangedFrom := some (match w.logChangedFrom with
      | some changed => min changed opNumber
      | none => opNumber) }

namespace Core
variable {Op : Type}

def primaryId (c : Core Op) : Nat := c.config.primaryId c.viewNumber

def isPrimary (c : Core Op) : Prop := c.selfId = c.primaryId

instance (c : Core Op) : Decidable c.isPrimary :=
  inferInstanceAs (Decidable (c.selfId = c.primaryId))

/-- The other replicas' ids, in order. -/
def others (c : Core Op) : List Nat :=
  (List.range c.config.replicas.length).filter (· ≠ c.selfId)

end Core

namespace Replica
variable {SM : Type} [StateMachine SM]

/-- `Replica::new` without its assertion on the number of replicas. -/
def fresh (selfId : Nat) (config : Config) (stateMachine : SM) : Replica SM where
  config := config
  selfId := selfId
  status := .normal
  viewNumber := 0
  lastNormalView := 0
  commitNumber := 0
  applied := 0
  logStart := 0
  log := []
  logChangedFrom := none
  written := none
  writes := 0
  outstanding := none
  durable := 0
  replyRanges := []
  acked := List.replicate config.replicas.length 0
  resendUpTo := 0
  viewStartOp := 0
  queries := []
  waiting := ∅
  round := 0
  roundConfirmed := 0
  confirmed := List.replicate config.replicas.length 0
  roundUnsent := false
  stateMachine := stateMachine
  clients := ∅
  sessions := 0
  evictionCandidates := []
  heardFromPrimary := true
  idlePeriodsWaiting := 0
  viewChangeAttempts := 0
  idlePeriodsStable := 0
  startViewChangeFrom := ∅
  doViewChangeSent := false
  doViewChangeFrom := ∅
  catchingUp := none
  serving := none
  fetch := none
  recoveryNonce := 0
  recoveryResponses := ∅
  outboxEarly := []
  outbox := []
  outboxWaiting := []
  outboxReady := []
  replies := []

def new (selfId : Nat) (config : Config) (stateMachine : SM) : Option (Replica SM) :=
  require (3 ≤ config.replicas.length) (some (fresh selfId config stateMachine))

/-! ## Queueing messages -/

/-- Every message queued and not yet drained. -/
def queued (r : Replica SM) : List (Envelope SM) :=
  r.outboxEarly ++ r.outbox ++ r.outboxWaiting ++ r.outboxReady

/-- Queues a message; one that promises nothing about the durable state may
leave before the step is persisted. -/
def send (r : Replica SM) (replicaId : Nat) (message : MessageFor SM) : Replica SM :=
  if message.early then { r with outboxEarly := r.outboxEarly ++ [(replicaId, message)] }
  else { r with outbox := r.outbox ++ [(replicaId, message)] }

/-- Queues `message` for each of `ids` in turn. -/
def sendEach (r : Replica SM) (ids : List Nat) (message : MessageFor SM) : Replica SM :=
  ids.foldl (fun r replicaId => r.send replicaId message) r

def sendToOthers (r : Replica SM) (message : MessageFor SM) : Replica SM :=
  r.sendEach r.others message

def sendToPrimary (r : Replica SM) (message : MessageFor SM) : Replica SM :=
  r.send r.primaryId message

def sendGetStateTo (r : Replica SM) (replicaId : Nat) (opNumber : Nat) : Replica SM :=
  r.send replicaId (.getState r.selfId r.viewNumber opNumber)

def sendGetState (r : Replica SM) (opNumber : Nat) : Replica SM :=
  r.sendGetStateTo r.primaryId opNumber

/-- Whether `envelope` acknowledges ops of `viewNumber` to `primaryId`. -/
def acknowledges (primaryId : Nat) (viewNumber : Nat) : Envelope SM → Bool
  | (replicaId, .prepareOk v _ _) => replicaId = primaryId && v = viewNumber
  | _ => false

/-- Drops an acknowledgement for this view still waiting for a write. -/
def supersedeAcks (r : Replica SM) : Replica SM :=
  { r with
    outbox := r.outbox.filter fun envelope => !acknowledges r.primaryId r.viewNumber envelope }

/-- Acknowledges every op up to our op number to the primary, in favour of an
earlier acknowledgement still waiting. -/
def sendPrepareOk (r : Replica SM) : Replica SM :=
  r.supersedeAcks.sendToPrimary (.prepareOk r.viewNumber r.opNumber r.selfId)

def sendStartView (r : Replica SM) (replicaId : Nat) : Replica SM :=
  r.send replicaId (.startView r.viewNumber ⟨.op r.logStart, r.log⟩ r.commitNumber)

/-- Asks for the chunk the fetch under way waits for. -/
def sendGetChunk (r : Replica SM) : Replica SM :=
  match r.fetch with
  | none => r
  | some fetch => r.send fetch.source (.getChunk r.selfId fetch.resume.checkpoint fetch.index)

/-- Asks the replicas that have not answered this recovery for their state, or
everyone again if a quorum has answered without completing it. -/
def sendRecovery (r : Replica SM) : Replica SM :=
  let askEveryone : Bool := r.config.quorum ≤ r.recoveryResponses.size
  r.sendEach (r.others.filter fun replicaId =>
      askEveryone || !r.recoveryResponses.contains replicaId)
    (.recovery r.selfId r.recoveryNonce r.viewNumber)

end Replica

end Vsr
