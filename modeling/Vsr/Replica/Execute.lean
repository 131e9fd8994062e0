import Vsr.Replica.State

/-!
# Executing committed entries

`execute`, `register` and the eviction of sessions, the pending keys of the log
suffix, the queries the primary answers, and `apply_committed`, which runs them.
-/

set_option autoImplicit false

namespace Vsr.Replica

open Std (ExtTreeMap)

variable {SM : Type} [StateMachine SM]

/-- What the replica knows of `clientId`, `or_default` of the map's entry. -/
def clientState (r : Replica SM) (clientId : Nat) : ClientState (Output SM) :=
  (r.clients[clientId]?).getD {}

/-- The record of `clientId` in the client table. -/
def record (r : Replica SM) (clientId : Nat) : Option (ClientRecord (Output SM)) :=
  (r.clients[clientId]?).bind (·.record)

/-- Takes the client table from the state machine. -/
def loadClientTable (r : Replica SM) : Replica SM :=
  let table := StateMachine.clientTable r.stateMachine
  { r with
    clients := table.foldl
      (fun clients record => clients.insert record.clientId { record := some record }) ∅
    evictionCandidates := []
    sessions := table.length }

/-- What `pending` keeps for `entry`, appended as `opNumber`: its client, and its
session and request number, 0 for a registration. -/
def pendingKey (opNumber : Nat) : EntryFor SM → Nat × Nat × Nat
  | .register clientId => (clientId, opNumber, 0)
  | .request clientId session requestNumber _ _ => (clientId, session, requestNumber)

/-- Sets the pending key of the entry's client. -/
def setPending (clients : ExtTreeMap Nat (ClientState (Output SM))) (opNumber : Nat)
    (entry : EntryFor SM) : ExtTreeMap Nat (ClientState (Output SM)) :=
  let key := pendingKey opNumber entry
  clients.insert key.1 { (clients[key.1]?).getD {} with pending := some key.2 }

/-- Sets the pending keys of `entries`, the first of which is op `opNumber`. -/
def setPendings (clients : ExtTreeMap Nat (ClientState (Output SM))) :
    Nat → List (EntryFor SM) → ExtTreeMap Nat (ClientState (Output SM))
  | _, [] => clients
  | opNumber, entry :: rest => setPendings (setPending clients opNumber entry) (opNumber + 1) rest

/-- Keeps the clients that have a record, without their pending keys. -/
def recordsOnly (clients : ExtTreeMap Nat (ClientState (Output SM))) :
    ExtTreeMap Nat (ClientState (Output SM)) :=
  clients.filterMap fun _ state => if state.record.isSome then some { state with pending := none } else none

/-- Rebuilds the pending entries from the log after `applied`. -/
def rebuildPending (r : Replica SM) : Option (Replica SM) := do
  let skip ← checkedSub r.applied r.logStart
  require (skip ≤ r.log.length) <|
    some { r with
      clients := setPendings (recordsOnly r.clients) (r.applied + 1) (r.log.drop skip) }

/-! ## Evicting a session -/

/-- The order of the candidates: by op number, then by client. -/
def candidateLe (a b : Nat × Nat) : Prop := a.1 < b.1 ∨ (a.1 = b.1 ∧ a.2 ≤ b.2)

instance : DecidableRel candidateLe := fun a b =>
  inferInstanceAs (Decidable (a.1 < b.1 ∨ (a.1 = b.1 ∧ a.2 ≤ b.2)))

/-- Scans the client table for the oldest sessions, a sixteenth of them and at
least one.  `select_nth_unstable`, `truncate` and `sort_unstable` leave the
`kept` smallest in order, whatever order the map yields its values in. -/
def findEvictionCandidates (r : Replica SM) : Option (Replica SM) :=
  let sessions := r.clients.toList.filterMap fun client =>
    client.2.record.map fun record => (record.opNumber, record.clientId)
  require (sessions ≠ []) <|
    let kept := max (sessions.length / 16) 1
    some { r with evictionCandidates := (sessions.insertionSort candidateLe).take kept }

/-- Pops candidates up to the first whose record still holds its op number. -/
def nextCandidate (r : Replica SM) :
    List (Nat × Nat) → Option (Nat × List (Nat × Nat))
  | [] => none
  | (latest, clientId) :: rest =>
      if (r.record clientId).any fun record => record.opNumber = latest then some (clientId, rest)
      else nextCandidate r rest

/-- The loop of `evict`: a scan refills the candidates when they run out.  The
first candidate of a scan is always good, so a loop that would scan twice in a
row, and so never end, is a `none` here. -/
def evictedClient (r : Replica SM) : Option (Nat × Replica SM) :=
  match nextCandidate r r.evictionCandidates with
  | some (clientId, rest) => some (clientId, { r with evictionCandidates := rest })
  | none => do
      let r ← r.findEvictionCandidates
      let (clientId, rest) ← nextCandidate r r.evictionCandidates
      some (clientId, { r with evictionCandidates := rest })

/-- Evicts the session whose latest entry executed earliest, at `opNumber`. -/
def evict (r : Replica SM) (opNumber : Nat) : Option (Replica SM) := do
  let (evicted, r) ← r.evictedClient
  let clients := match r.clients[evicted]? with
    | none => r.clients
    | some state =>
        if state.pending.isNone then r.clients.erase evicted
        else r.clients.insert evicted { state with record := none }
  let sessions ← checkedSub r.sessions 1
  some { r with
    clients := clients
    sessions := sessions
    stateMachine := StateMachine.recordClient r.stateMachine opNumber evicted none }

/-! ## Executing an entry -/

/-- The client's state once its entry with key `key` executes: the key goes if it
is the latest. -/
def settle {Output : Type} (state : ClientState Output) (key : Nat × Nat) :
    ClientState Output :=
  if state.pending = some key then { state with pending := none } else state

/-- Evicts a session if the client table is full. -/
def makeRoom (r : Replica SM) (opNumber : Nat) : Option (Replica SM) :=
  if r.config.clientsMax ≤ r.sessions then r.evict opNumber else some r

/-- A session's record as its registration at `opNumber` opens it. -/
def openedRecord {Output : Type} (clientId : Nat) (opNumber : Nat) :
    ClientRecord Output :=
  { clientId := clientId, session := opNumber, requestNumber := 0, replies := []
    opNumber := opNumber }

/-- Adds the session `openedRecord` to the client table. -/
def openSession (r : Replica SM) (opNumber : Nat) (clientId : Nat) : Replica SM :=
  let record := openedRecord clientId opNumber
  { r with
    stateMachine := StateMachine.recordClient r.stateMachine opNumber clientId (some record)
    clients := r.clients.insert clientId { r.clientState clientId with record := some record }
    sessions := r.sessions + 1 }

/-- Opens a session numbered `opNumber` for `clientId`, unless it has one. -/
def register (r : Replica SM) (opNumber : Nat) (clientId : Nat) :
    Option (Replica SM × Reply (Output SM)) :=
  let settled := { r with
    clients := r.clients.insert clientId (settle (r.clientState clientId) (opNumber, 0)) }
  match (r.clientState clientId).record with
  | some record =>
      some ({ settled with
          stateMachine :=
            StateMachine.recordClient r.stateMachine opNumber clientId (some record) },
        .registered r.viewNumber clientId record.session)
  | none =>
      (settled.makeRoom opNumber).map fun room =>
        (room.openSession opNumber clientId, .registered r.viewNumber clientId opNumber)

/-- The results a record keeps once `result` of `requestNumber` is added: those
after `answered`, at least one and at most `inFlightMax`. -/
def keepReplies {Output : Type} (replies : List Output) (result : Output)
    (requestNumber answered : Nat) (inFlightMax : Nat) : List Output :=
  let replies := replies ++ [result]
  let kept := min (max (requestNumber - answered) 1) inFlightMax
  replies.drop (replies.length - kept)

/-- A session's record once its request at `opNumber` has given `result`. -/
def advance {Output : Type} (record : ClientRecord Output) (opNumber : Nat)
    (requestNumber answered : Nat) (inFlightMax : Nat) (result : Output) :
    ClientRecord Output :=
  { record with
    requestNumber := requestNumber
    replies := keepReplies record.replies result requestNumber answered inFlightMax
    opNumber := opNumber }

/-- A request that finds its session gone executes nothing. -/
def skipRequest (r : Replica SM) (opNumber : Nat) (clientId : Nat)
    (state : ClientState (Output SM)) : Replica SM :=
  { r with
    stateMachine := StateMachine.recordClient r.stateMachine opNumber clientId state.record
    clients :=
      if state.record.isNone && state.pending.isNone then r.clients.erase clientId
      else r.clients.insert clientId state }

/-- Executes `op` as the session's next request. -/
def runRequest (r : Replica SM) (opNumber : Nat) (clientId : Nat)
    (state : ClientState (Output SM)) (record : ClientRecord (Output SM))
    (requestNumber answered : Nat) (op : Input SM) : Replica SM :=
  let applied := StateMachine.apply r.stateMachine opNumber op
  let record := advance record opNumber requestNumber answered r.config.inFlightMax applied.2
  { r with
    stateMachine := StateMachine.recordClient applied.1 opNumber clientId (some record)
    clients := r.clients.insert clientId { state with record := some record } }

/-- A request executes only in its session, as the session's next one. -/
def executeRequest (r : Replica SM) (opNumber : Nat) (clientId : Nat)
    (session : Nat) (requestNumber answered : Nat) (op : Input SM) :
    Option (Replica SM × Reply (Output SM)) :=
  let state := settle (r.clientState clientId) (session, requestNumber)
  match (r.clientState clientId).record.filter (·.session = session) with
  | none =>
      some (r.skipRequest opNumber clientId state, .evicted r.viewNumber clientId session)
  | some record =>
      require (record.requestNumber + 1 = requestNumber) <|
        some (r.runRequest opNumber clientId state record requestNumber answered op,
          .executed r.viewNumber clientId session requestNumber
            (StateMachine.apply r.stateMachine opNumber op).2)

/-- Executes the entry at `opNumber`, and returns the reply to it. -/
def execute (r : Replica SM) (opNumber : Nat) : Option (Replica SM × Reply (Output SM)) := do
  let entry ← r.entry opNumber
  match entry with
  | .register clientId => r.register opNumber clientId
  | .request clientId session requestNumber answered op =>
      r.executeRequest opNumber clientId session requestNumber answered op

/-! ## Answering queries -/

/-- The loop of `execute_queries`, over the queries from the front. -/
def answerQueries (r : Replica SM) : List (WaitingQuery (Query SM)) → Replica SM
  | [] => { r with queries := [] }
  | query :: rest =>
      if query.round > r.roundConfirmed ∨ query.opNumber > r.applied then
        { r with queries := query :: rest }
      else
        answerQueries { r with
            waiting := r.waiting.erase (query.clientId, query.queryNumber)
            replies := r.replies ++ [.queried r.viewNumber query.clientId query.queryNumber
              (StateMachine.query r.stateMachine query.query)] } rest

/-- Answers the waiting queries whose round a quorum has confirmed and whose op
the state machine has applied. -/
def executeQueries (r : Replica SM) : Replica SM :=
  if r.isPrimary ∧ r.status = .normal then r.answerQueries r.queries else r

/-! ## Executing what is committed -/

/-- Whether op `opNumber` is in a range still to be replied to. -/
def toReply (ranges : List (Nat × Nat)) (opNumber : Nat) : Bool :=
  ranges.any fun range => range.1 ≤ opNumber && opNumber ≤ range.2

/-- Executes the next entry, and produces its reply if one is due. -/
def applyNext (r : Replica SM) : Option (Replica SM) := do
  let opNumber := r.applied + 1
  let (r, reply) ← r.execute opNumber
  some { r with
    applied := opNumber
    replies := if toReply r.replyRanges opNumber then r.replies ++ [reply] else r.replies }

/-- Executes the next `count` entries. -/
def applyMany : Nat → Replica SM → Option (Replica SM)
  | 0, r => some r
  | count + 1, r => r.applyNext.bind (applyMany count)

/-- Executes the committed entries up to `opNumber` that the state machine has
not executed yet, and answers the queries this lets go. -/
def applyCommitted (r : Replica SM) (opNumber : Nat) : Option (Replica SM) := do
  let r ← applyMany (min r.commitNumber opNumber - r.applied) r
  let r := { r with replyRanges := r.replyRanges.filter fun range => r.applied < range.2 }
  some (if r.queries = [] then r else r.executeQueries)

end Vsr.Replica
