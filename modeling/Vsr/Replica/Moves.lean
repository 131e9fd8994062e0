import Mathlib.Logic.Relation
import Vsr.Replica.Frames

/-!
# What one step can do

Every handler comes to a sequence of moves, which change one thing each, and then
tells others what the replica holds.  An invariant of one replica is shown move by
move.
-/

set_option autoImplicit false

namespace Vsr

open Relation (ReflTransGen)

/-- The segment a message to fetch a checkpoint for came with. -/
def Resume.segment {Op : Type} : Resume Op → LogSegment Op
  | .newState _ segment _ => segment
  | .recoveryResponse _ state => state.segment

namespace Replica

variable {SM : Type} [StateMachine SM]

/-- `r'` is `r` but for the timers, what a view change or a recovery has collected,
and the replies. -/
structure Quiet (r r' : Replica SM) : Prop where
  standing : r'.toStanding = r.toStanding
  writes : r'.toWriteState = r.toWriteState
  config : r'.config = r.config
  selfId : r'.selfId = r.selfId
  acked : r'.acked = r.acked
  replyRanges : r'.replyRanges = r.replyRanges
  viewStartOp : r'.viewStartOp = r.viewStartOp
  serving : r'.serving.map Prod.fst = r.serving.map Prod.fst
  fetch : r'.fetch = r.fetch
  clientTable : r'.toClientTable = r.toClientTable
  queryState : r'.toQueryState = r.toQueryState
  early : r'.outboxEarly = r.outboxEarly
  outbox : r'.outbox = r.outbox
  waiting : r'.outboxWaiting = r.outboxWaiting
  ready : r'.outboxReady = r.outboxReady

theorem Quiet.refl (r : Replica SM) : Quiet r r :=
  ⟨rfl, rfl, rfl, rfl, rfl, rfl, rfl, rfl, rfl, rfl, rfl, rfl, rfl, rfl, rfl⟩

/-- A message that named a checkpoint the replica may go on with: the segment
follows that checkpoint, and only a recovering replica goes on with a recovery. -/
structure Names (r : Replica SM) (resume : Resume (Input SM)) : Prop where
  away : r.status ≠ .normal
  base : resume.segment.base = .checkpoint resume.checkpoint
  recovering : ∀ viewNumber state, resume = .recoveryResponse viewNumber state →
    r.status = .recovering ∧ r.viewNumber ≤ viewNumber

/-- The fetch under way goes on with a message that named its checkpoint. -/
def Fetches (r : Replica SM) : Prop := ∀ fetch, r.fetch = some fetch → r.Names fetch.resume

/-- What becomes of a fetch while no chunk of it arrives. -/
inductive Refetch (r : Replica SM) : Option (Fetch (Input SM)) → Prop
  | drop : Refetch r none
  | anew {fetch : Fetch (Input SM)} (first : fetch.index = 0) (names : r.Names fetch.resume) :
      Refetch r (some fetch)
  | goOn {before fetch : Fetch (Input SM)} (isFetch : r.fetch = some before)
      (source : fetch.source = before.source) (index : fetch.index = before.index)
      (checkpoint : fetch.resume.checkpoint = before.resume.checkpoint)
      (names : fetch.resume = before.resume ∨ r.Names fetch.resume) : Refetch r (some fetch)

/-- A segment of the log as it is: from an op number on, or from the checkpoint
kept. -/
def Segment (r : Replica SM) (segment : LogSegment (Input SM)) : Prop :=
  segment.entries = r.logFrom (segment.start + 1) ∧
    match segment.base with
    | .op opNumber => r.logStart ≤ opNumber ∧ opNumber ≤ r.opNumber
    | .checkpoint opNumber => r.serving.map Prod.fst = some opNumber

/-- What is true of a message without a segment where the replica queues it. -/
def Honest (r : Replica SM) : MessageFor SM → Prop
  | .prepareOk viewNumber _ _ => viewNumber = r.viewNumber ∧ r.status = .normal
  | .startViewChange viewNumber _ => viewNumber = r.viewNumber
  | .confirmView viewNumber round =>
      viewNumber = r.viewNumber ∧ r.status = .normal ∧ r.isPrimary ∧ round ≤ r.round
  | .newState .. => False
  | .doViewChange .. => False
  | .startView .. => False
  | .recoveryResponse .. => False
  | _ => True

/-- What is true of a message that tells what the replica holds. -/
def Holds (r : Replica SM) : MessageFor SM → Prop
  | .newState _ _ segment _ => r.Segment segment
  | .doViewChange viewNumber _ _ segment _ => viewNumber = r.viewNumber ∧ r.Segment segment
  | .startView viewNumber segment _ =>
      viewNumber = r.viewNumber ∧ r.status = .normal ∧ r.Segment segment
  | .recoveryResponse viewNumber _ _ state =>
      viewNumber = r.viewNumber ∧ r.status = .normal ∧
        ∀ told, state = some told → r.Segment told.segment
  | _ => False

/-- One change to a replica that has heard `heard`. -/
inductive Move (heard : MessageFor SM → Prop) : Replica SM → Replica SM → Prop
  | quiet {r r' : Replica SM} (same : Quiet r r') : Move heard r r'
  | send {r : Replica SM} (replicaId : Nat) (message : MessageFor SM)
      (truthful : r.Honest message) : Move heard r (r.send replicaId message)
  | supersede {r : Replica SM} : Move heard r r.supersedeAcks
  | append {r : Replica SM} (entry : EntryFor SM) : Move heard r (r.appendToLog entry)
  | merge {r r' : Replica SM} {start : Nat} {entries : List (EntryFor SM)}
      (run : r.mergeLog start entries = some r') : Move heard r r'
  | commit {r r' : Replica SM} {commitNumber : Nat} {reply : Bool}
      (run : r.commitUpTo commitNumber reply = some r') : Move heard r r'
  | count {r r' : Replica SM} {replicaId opNumber : Nat}
      (run : r.registerAck replicaId opNumber = some r') : Move heard r r'
  /-- Executes what a write handed back lets go. -/
  | apply {r r' : Replica SM} {durable : Nat} (isDurable : r.durableOp = some durable)
      (run : r.applyCommitted durable = some r') : Move heard r r'
  /-- Enters a view it is in or has not reached, with what it commits there. -/
  | enter {r m : Replica SM} (viewNumber : Nat) {commitNumber : Nat} {reply : Bool}
      (later : r.viewNumber ≤ viewNumber)
      (outside : r.viewNumber < viewNumber ∨ r.status ≠ .normal)
      (run : { r with viewNumber := viewNumber }.commitUpTo commitNumber reply = some m) :
      Move heard r m.enterNormal
  | leave {r : Replica SM} {viewNumber : Nat}
      (later : r.viewNumber < viewNumber ∨
        (r.viewNumber = viewNumber ∧ r.lastNormalView < viewNumber)) :
      Move heard r (r.leaveFor viewNumber)
  /-- Learns that a view has started. -/
  | turn {r : Replica SM} {viewNumber : Nat} (catchingUp : Option Nat)
      (later : r.viewNumber < viewNumber ∨
        (r.viewNumber = viewNumber ∧ r.status = .viewChange)) :
      Move heard r
        { { r with
            viewNumber := viewNumber, status := .viewChange,
            idlePeriodsWaiting := 0 }.clearViewChangeState with
          catchingUp := catchingUp }
  /-- Falls behind in its view. -/
  | transfer {r : Replica SM}
      (status : (r.status = .normal ∧ ¬r.isPrimary) ∨ r.status = .stateTransfer) :
      Move heard r { r with status := .stateTransfer }
  | rejoin {r : Replica SM} (status : r.status = .stateTransfer) (free : r.fetch = none) :
      Move heard r { r with status := .normal }
  | refetch {r : Replica SM} {fetch : Option (Fetch (Input SM))} (becomes : r.Refetch fetch) :
      Move heard r { r with fetch := fetch }
  /-- Stages the chunk the fetch under way waits for. -/
  | stage {r : Replica SM} {fetch : Fetch (Input SM)} {chunk : Chunk SM} {last : Bool}
      (isHeard : heard (.newChunk fetch.source fetch.resume.checkpoint fetch.index chunk last))
      (next : Nat) (timers : Timers) (isFetch : r.fetch = some fetch) :
      Move heard r { r with
        fetch := some { fetch with idlePeriods := 0, stalled := false, index := next }
        stateMachine := StateMachine.stageChunk r.stateMachine fetch.resume.checkpoint fetch.index
          chunk
        toTimers := timers }
  | rebuild {r r' : Replica SM} (run : r.rebuildPending = some r') : Move heard r r'
  | restore {r r' : Replica SM} {source opNumber index : Nat} {chunk : Chunk SM}
      (isHeard : heard (.newChunk source opNumber index chunk true)) (away : r.status ≠ .normal)
      (run : r.restoreCheckpoint opNumber = some r') : Move heard r r'
  | keep {r r' : Replica SM} {opNumber : Nat} (run : r.keepCheckpoint = some (r', opNumber)) :
      Move heard r r'
  | release {r : Replica SM} :
      Move heard r { r with
        serving := none, stateMachine := StateMachine.releaseCheckpoint r.stateMachine }
  | query {r r' : Replica SM} {clientId queryNumber : Nat} {query : Query SM}
      (run : r.onQuery clientId queryNumber query = some r') : Move heard r r'
  | confirm {r r' : Replica SM} {viewNumber round replicaId : Nat}
      (isHeard : heard (.confirmViewOk viewNumber round replicaId))
      (run : r.onConfirmViewOk viewNumber round replicaId = some r') : Move heard r r'

/-- Tells what the replica holds, and changes nothing. -/
inductive Tell : Replica SM → Replica SM → Prop
  | quiet {r r' : Replica SM} (same : Quiet r r') : Tell r r'
  | send {r : Replica SM} (replicaId : Nat) (message : MessageFor SM) (holds : r.Holds message) :
      Tell r (r.send replicaId message)

/-- Moves, and then tells. -/
def Handles (heard : MessageFor SM → Prop) (r r' : Replica SM) : Prop :=
  ∃ moved, ReflTransGen (Move heard) r moved ∧ ReflTransGen Tell moved r'

end Replica

end Vsr
