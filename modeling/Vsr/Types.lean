import Mathlib.Data.Finset.Card
import Mathlib.Data.List.Sort

/-!
# Data types of the library

The identifiers, log entries, replies, messages, persisted state and writes of
`lib.rs`, and the `StateMachine` trait.  Ids and counters (`ReplicaID`,
`ViewNumber`, `OpNumber` and so on) are unbounded natural numbers; a subtraction
that would underflow, an index out of range and a failed assertion are panics,
and a function that can panic returns `none` there.
-/

set_option autoImplicit false

namespace Vsr

/-- `a - b` where Rust would panic on underflow, and `usize::checked_sub`. -/
def checkedSub (a b : Nat) : Option Nat := if b ≤ a then some (a - b) else none

@[simp] theorem checkedSub_of_le {a b : Nat} (le : b ≤ a) : checkedSub a b = some (a - b) :=
  if_pos le

theorem checkedSub_eq_some {a b c : Nat} : checkedSub a b = some c ↔ b ≤ a ∧ c = a - b := by
  unfold checkedSub
  split <;> simp_all [eq_comm]

/-- `assert!`: goes on with `next` if `p` holds, and panics otherwise. -/
def require {α : Type} (p : Prop) [Decidable p] (next : Option α) : Option α :=
  if p then next else none

@[simp] theorem require_of {α : Type} {p : Prop} [Decidable p] {next : Option α} (h : p) :
    require p next = next :=
  if_pos h

theorem require_eq_some {α : Type} {p : Prop} [Decidable p] {next : Option α} {a : α} :
    require p next = some a ↔ p ∧ next = some a := by
  unfold require
  split <;> simp_all

/-- The cluster's configuration.  The setters assert the bounds, and
`add_replica` gives each replica its index as its id. -/
structure Config where
  replicas : List Nat
  primaryTimeout : Nat
  clientsMax : Nat
  inFlightMax : Nat
  ids : replicas = List.range replicas.length
  primaryTimeout_pos : 1 ≤ primaryTimeout
  clientsMax_pos : 1 ≤ clientsMax
  inFlightMax_pos : 1 ≤ inFlightMax

namespace Config

def new : Config where
  replicas := []
  primaryTimeout := 3
  clientsMax := 4096
  inFlightMax := 16
  ids := rfl
  primaryTimeout_pos := by decide
  clientsMax_pos := by decide
  inFlightMax_pos := by decide

def addReplica (config : Config) : Config :=
  { config with
    replicas := config.replicas ++ [config.replicas.length]
    ids := by
      conv_lhs => rw [config.ids]
      simp [List.range_succ] }

def primaryId (config : Config) (viewNumber : Nat) : Nat :=
  viewNumber % config.replicas.length

def quorum (config : Config) : Nat := config.replicas.length / 2 + 1

end Config

/-- A log entry: a client's registration, or a request of a session. -/
inductive LogEntry (Op : Type) where
  | register (clientId : Nat)
  | request (clientId : Nat) (session : Nat) (requestNumber : Nat)
      (answered : Nat) (op : Op)
  deriving DecidableEq, Repr

def LogEntry.clientId {Op : Type} : LogEntry Op → Nat
  | .register clientId => clientId
  | .request clientId _ _ _ _ => clientId

/-- The primary's reply to a client. -/
inductive Reply (Output : Type) where
  | registered (viewNumber : Nat) (clientId : Nat) (session : Nat)
  | executed (viewNumber : Nat) (clientId : Nat) (session : Nat)
      (requestNumber : Nat) (result : Output)
  | evicted (viewNumber : Nat) (clientId : Nat) (session : Nat)
  | queried (viewNumber : Nat) (clientId : Nat) (queryNumber : Nat)
      (result : Output)
  deriving DecidableEq, Repr

namespace Reply
variable {Output : Type}

def clientId : Reply Output → Nat
  | .registered _ clientId _ => clientId
  | .executed _ clientId _ _ _ => clientId
  | .evicted _ clientId _ => clientId
  | .queried _ clientId _ _ => clientId

def viewNumber : Reply Output → Nat
  | .registered viewNumber _ _ => viewNumber
  | .executed viewNumber _ _ _ _ => viewNumber
  | .evicted viewNumber _ _ => viewNumber
  | .queried viewNumber _ _ _ => viewNumber

end Reply

/-- What the client table keeps of a session. -/
structure ClientRecord (Output : Type) where
  clientId : Nat
  session : Nat
  requestNumber : Nat
  /-- The results of the last requests, oldest first. -/
  replies : List Output
  /-- The op number of the session's latest executed entry. -/
  opNumber : Nat
  deriving DecidableEq, Repr

/-- What a stretch of log starts from: an op number the receiver holds the
entries up to, or a checkpoint the sender keeps. -/
inductive LogBase where
  | op (opNumber : Nat)
  | checkpoint (opNumber : Nat)
  deriving DecidableEq, Repr

def LogBase.start : LogBase → Nat
  | .op opNumber => opNumber
  | .checkpoint opNumber => opNumber

/-- A stretch of a replica's log: the entries after `base`. -/
structure LogSegment (Op : Type) where
  base : LogBase
  entries : List (LogEntry Op)
  deriving DecidableEq, Repr

namespace LogSegment
variable {Op : Type}

/-- The op number the entries start after. -/
def start (segment : LogSegment Op) : Nat := segment.base.start

/-- The op number of the last entry. -/
def endOp (segment : LogSegment Op) : Nat := segment.start + segment.entries.length

end LogSegment

/-- The primary's state in a `RecoveryResponse`. -/
structure RecoveryState (Op : Type) where
  segment : LogSegment Op
  commitNumber : Nat
  deriving DecidableEq, Repr

/-- What the owner has persisted of a replica. -/
structure PersistentState (Op : Type) where
  viewNumber : Nat
  lastNormalView : Nat
  commitNumber : Nat
  /-- The op number of the last entry compacted away. -/
  logStart : Nat
  log : List (LogEntry Op)
  recovering : Bool
  deriving DecidableEq, Repr

/-- What the steps since the last write changed, for the owner to persist. -/
structure LogWrite (Op : Type) where
  viewNumber : Nat
  lastNormalView : Nat
  recovering : Bool
  commitNumber : Nat
  logStart : Nat
  /-- The op number of the first of `entries`. -/
  entriesFrom : Nat
  entries : List (LogEntry Op)
  /-- Whether the write must be durable before it is handed back. -/
  sync : Bool
  opNumber : Nat
  sequence : Nat
  deriving DecidableEq, Repr

namespace PersistentState
variable {Op : Type}

/-- The state of a replica that has done nothing yet. -/
def empty : PersistentState Op where
  viewNumber := 0
  lastNormalView := 0
  commitNumber := 0
  logStart := 0
  log := []
  recovering := false

/-- The compacted part of `apply`: drops the entries up to the write's log
start, past the end of the log if need be. -/
def compactTo (state : PersistentState Op) (logStart : Nat) : PersistentState Op :=
  if logStart > state.logStart then
    let dropped := min (logStart - state.logStart) state.log.length
    { state with log := state.log.drop dropped, logStart := logStart }
  else state

/-- Brings this copy of the persisted state up to date with `write`. -/
def apply (state : PersistentState Op) (write : LogWrite Op) : Option (PersistentState Op) :=
  let state := state.compactTo write.logStart
  let last := state.logStart + state.log.length
  require (state.logStart + 1 ≤ write.entriesFrom ∧ write.entriesFrom ≤ last + 1) <|
    let keep := write.entriesFrom - state.logStart - 1
    some
      { viewNumber := write.viewNumber
        lastNormalView := write.lastNormalView
        commitNumber := write.commitNumber
        logStart := state.logStart
        log := state.log.take keep ++ write.entries
        recovering := write.recovering }

end PersistentState

/-- A protocol message between replicas, or from a client to a replica. -/
inductive Message (Op Query Chunk : Type) where
  | register (clientId : Nat)
  | request (clientId : Nat) (session : Nat) (requestNumber : Nat)
      (answered : Nat) (op : Op)
  | query (clientId : Nat) (queryNumber : Nat) (query : Query)
  | confirmView (viewNumber : Nat) (round : Nat)
  | confirmViewOk (viewNumber : Nat) (round : Nat) (replicaId : Nat)
  | prepare (viewNumber : Nat) (opNumber : Nat) (entry : LogEntry Op)
      (commitNumber : Nat)
  | prepareOk (viewNumber : Nat) (opNumber : Nat) (replicaId : Nat)
  | commit (viewNumber : Nat) (commitNumber : Nat)
  | getState (replicaId : Nat) (viewNumber : Nat) (opNumber : Nat)
  | newState (replicaId : Nat) (viewNumber : Nat) (segment : LogSegment Op)
      (commitNumber : Nat)
  | getChunk (replicaId : Nat) (opNumber : Nat) (index : Nat)
  | newChunk (replicaId : Nat) (opNumber : Nat) (index : Nat) (chunk : Chunk)
      (last : Bool)
  | startViewChange (viewNumber : Nat) (replicaId : Nat)
  | doViewChange (viewNumber : Nat) (replicaId : Nat)
      (lastNormalView : Nat) (segment : LogSegment Op) (commitNumber : Nat)
  | startView (viewNumber : Nat) (segment : LogSegment Op) (commitNumber : Nat)
  | recovery (replicaId : Nat) (nonce : Nat) (viewNumber : Nat)
  | recoveryResponse (viewNumber : Nat) (nonce : Nat) (replicaId : Nat)
      (state : Option (RecoveryState Op))
  deriving DecidableEq, Repr

/-- The messages that promise nothing about the sender's durable state, which
`Replica::send` lets leave before the step is persisted. -/
def Message.early {Op Query Chunk : Type} : Message Op Query Chunk → Bool
  | .prepare .. => true
  | .commit .. => true
  | .confirmView .. => true
  | .confirmViewOk .. => true
  | .getState .. => true
  | .newState .. => true
  | .getChunk .. => true
  | .newChunk .. => true
  | _ => false

namespace Message
variable {Op Query Chunk : Type}

/-- The view a message is sent for. -/
def stamp : Message Op Query Chunk → Option Nat
  | .confirmView v _ => some v
  | .confirmViewOk v _ _ => some v
  | .prepare v _ _ _ => some v
  | .prepareOk v _ _ => some v
  | .commit v _ => some v
  | .getState _ v _ => some v
  | .newState _ v _ _ => some v
  | .startViewChange v _ => some v
  | .doViewChange v _ _ _ _ => some v
  | .startView v _ _ => some v
  | .recovery _ _ v => some v
  | .recoveryResponse v _ _ _ => some v
  | _ => none

/-- Whether a message comes from a client. -/
def fromClient : Message Op Query Chunk → Bool
  | .register _ => true
  | .request .. => true
  | .query .. => true
  | _ => false

end Message

/-- The `StateMachine` trait.  A method that takes `&mut self` returns the
machine it leaves. -/
class StateMachine (SM : Type) where
  Input : Type
  Query : Type
  Output : Type
  Chunk : Type
  apply : SM → Nat → Input → SM × Output
  query : SM → Query → Output
  recordClient : SM → Nat → Nat → Option (ClientRecord Output) → SM
  clientTable : SM → List (ClientRecord Output)
  checkpoint : SM → SM × Nat
  checkpointChunk : SM → Nat → Chunk × Bool
  releaseCheckpoint : SM → SM
  stageChunk : SM → Nat → Nat → Chunk → SM
  restore : SM → Nat → SM

export StateMachine (Input Query Output Chunk)

/-- `Message` for a given state machine. -/
abbrev MessageFor (SM : Type) [StateMachine SM] := Message (Input SM) (Query SM) (Chunk SM)

/-- `LogEntry` for a given state machine. -/
abbrev EntryFor (SM : Type) [StateMachine SM] := LogEntry (Input SM)

/-- A message with the replica it goes to. -/
abbrev Envelope (SM : Type) [StateMachine SM] := Nat × MessageFor SM

end Vsr
