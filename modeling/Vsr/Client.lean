import Vsr.Types

/-!
# The client

`Client`: a session, the requests and queries in flight, and the operations
queued behind them.
-/

set_option autoImplicit false

namespace Vsr

/-- A request or query a client sent; the item is gone once it is answered. -/
structure InFlight (T : Type) where
  number : Nat
  item : Option T
  sent : Nat
  deriving DecidableEq, Repr

/-- An operation a client queued. -/
inductive Queued (Op Query : Type) where
  | request (requestNumber : Nat) (op : Op)
  | query (queryNumber : Nat) (query : Query)
  deriving DecidableEq, Repr

/-- A message a client sends. -/
inductive Outgoing (Op Query : Type) where
  | register
  | request (session : Nat) (requestNumber : Nat) (answered : Nat)
      (op : Op)
  | query (queryNumber : Nat) (query : Query)
  deriving DecidableEq, Repr

/-- What a reply completed. -/
inductive Completion (Output : Type) where
  | executed (requestNumber : Nat) (result : Output)
  | queried (queryNumber : Nat) (result : Output)
  | evicted
  deriving DecidableEq, Repr

structure Client (Op Query : Type) where
  config : Config
  clientId : Nat
  viewNumber : Nat
  session : Option Nat
  registering : Option Nat
  evicted : Nat
  nextRequestNumber : Nat
  nextQueryNumber : Nat
  requests : List (InFlight Op)
  queries : List (InFlight Query)
  idlePeriods : Nat
  queued : List (Queued Op Query)
  outbox : List (Nat × Outgoing Op Query)

/-- Drops the items answered from the front. -/
def dropAnswered {T : Type} : List (InFlight T) → List (InFlight T)
  | [] => []
  | sent :: rest => if sent.item.isNone then dropAnswered rest else sent :: rest

/-- Takes the item numbered `number` from what a client has in flight, and says
whether it was in flight without a reply. -/
def answer {T : Type} (inFlight : List (InFlight T)) (number : Nat) : List (InFlight T) × Bool :=
  match inFlight with
  | [] => ([], false)
  | oldest :: _ =>
      match (checkedSub number oldest.number).bind fun index =>
          (inFlight[index]?).map fun sent => (index, sent) with
      | some (index, sent) =>
          (dropAnswered (inFlight.set index { sent with item := none }), sent.item.isSome)
      | none => (dropAnswered inFlight, false)

namespace Client
variable {Op Query Output : Type}

def new (clientId : Nat) (config : Config) : Client Op Query where
  config := config
  clientId := clientId
  viewNumber := 0
  session := none
  registering := none
  evicted := 0
  nextRequestNumber := 1
  nextQueryNumber := 1
  requests := []
  queries := []
  idlePeriods := 0
  queued := []
  outbox := []

/-- Queues a message for the primary of the latest view the client heard of. -/
def toPrimary (c : Client Op Query) (outgoing : Outgoing Op Query) : Client Op Query :=
  { c with outbox := c.outbox ++ [(c.config.primaryId c.viewNumber, outgoing)] }

def oldestNumber {T : Type} (inFlight : List (InFlight T)) (number : Nat) : Nat :=
  match inFlight.head? with
  | some sent => sent.number
  | none => number

def requestMayGo (c : Client Op Query) (requestNumber : Nat) : Bool :=
  c.queries.isEmpty &&
    requestNumber < oldestNumber c.requests requestNumber + c.config.inFlightMax

def queryMayGo (c : Client Op Query) (queryNumber : Nat) : Bool :=
  c.requests.isEmpty &&
    queryNumber < oldestNumber c.queries queryNumber + c.config.inFlightMax

/-- Sends a request to the primary, and keeps its op to re-send. -/
def sendRequest (c : Client Op Query) (session : Nat) (requestNumber : Nat)
    (op : Op) : Client Op Query :=
  let oldest := oldestNumber c.requests requestNumber
  let sent : InFlight Op := { number := requestNumber, item := some op, sent := c.idlePeriods }
  { c with requests := c.requests ++ [sent] }.toPrimary
    (.request session requestNumber (oldest - 1) op)

/-- Sends a query to the primary, and keeps it to re-send. -/
def sendQuery (c : Client Op Query) (queryNumber : Nat) (query : Query) :
    Client Op Query :=
  let sent : InFlight Query := { number := queryNumber, item := some query, sent := c.idlePeriods }
  { c with queries := c.queries ++ [sent] }.toPrimary (.query queryNumber query)

/-- Asks for a session, unless the client has one or has asked. -/
def register (c : Client Op Query) : Client Op Query :=
  if c.session.isNone ∧ c.registering.isNone then
    { c with registering := some c.idlePeriods }.toPrimary .register
  else c

/-- Sends the queued operations that may go, in order: `queued` is what is left
of the queue. -/
def sendFrom (c : Client Op Query) : List (Queued Op Query) → Client Op Query
  | [] => { c with queued := [] }
  | .request requestNumber op :: rest =>
      match c.session with
      | some session =>
          if c.requestMayGo requestNumber then
            sendFrom (c.sendRequest session requestNumber op) rest
          else { c with queued := .request requestNumber op :: rest }
      | none => { c with queued := .request requestNumber op :: rest }
  | .query queryNumber query :: rest =>
      if c.queryMayGo queryNumber then sendFrom (c.sendQuery queryNumber query) rest
      else { c with queued := .query queryNumber query :: rest }

def sendQueued (c : Client Op Query) : Client Op Query := c.sendFrom c.queued

def enqueue (c : Client Op Query) (operation : Queued Op Query) : Client Op Query :=
  { c with queued := c.queued ++ [operation] }

/-- Sends `op` to the primary, or queues it.  Returns the request number it was
given. -/
def onRequest (c : Client Op Query) (op : Op) : Client Op Query × Nat :=
  let requestNumber := c.nextRequestNumber
  let c := { c with nextRequestNumber := requestNumber + 1 }
  match c.session with
  | some session =>
      if c.queued.isEmpty && c.requestMayGo requestNumber then
        (c.sendRequest session requestNumber op, requestNumber)
      else
        ((c.enqueue (.request requestNumber op)).register, requestNumber)
  | none => ((c.enqueue (.request requestNumber op)).register, requestNumber)

/-- Sends `query` to the primary, or queues it.  Returns the query number it was
given. -/
def onQuery (c : Client Op Query) (query : Query) : Client Op Query × Nat :=
  let queryNumber := c.nextQueryNumber
  let c := { c with nextQueryNumber := queryNumber + 1 }
  if c.queued.isEmpty && c.queryMayGo queryNumber then
    (c.sendQuery queryNumber query, queryNumber)
  else (c.enqueue (.query queryNumber query), queryNumber)

/-- Handles a reply to this client, and returns what it completed. -/
def onReply (c : Client Op Query) (reply : Reply Output) :
    Client Op Query × Option (Completion Output) :=
  if reply.clientId ≠ c.clientId then (c, none)
  else
    let c := { c with viewNumber := max c.viewNumber reply.viewNumber }
    match reply with
    | .registered _ _ session =>
        if c.registering.isSome ∧ c.evicted < session then
          ({ c with registering := none, session := some session }.sendQueued, none)
        else (c, none)
    | .executed _ _ session requestNumber result =>
        if c.session ≠ some session then (c, none)
        else
          match answer c.requests requestNumber with
          | (requests, true) =>
              ({ c with requests := requests }.sendQueued, some (.executed requestNumber result))
          | (requests, false) => ({ c with requests := requests }, none)
    | .queried _ _ queryNumber result =>
        match answer c.queries queryNumber with
        | (queries, true) =>
            ({ c with queries := queries }.sendQueued, some (.queried queryNumber result))
        | (queries, false) => ({ c with queries := queries }, none)
    | .evicted _ _ session =>
        if c.session ≠ some session then (c, none)
        else
          ({ c with
              evicted := session
              session := none
              nextRequestNumber := 1
              requests := []
              queries := []
              queued := []
              outbox := c.outbox.filter fun sent =>
                match sent.2 with
                | .register => true
                | _ => false }, some .evicted)

/-- Marks what goes out again at idle period `now` as sent then. -/
def resent {T : Type} (now : Nat) (inFlight : List (InFlight T)) : List (InFlight T) :=
  inFlight.map fun sent =>
    if sent.sent + 1 < now ∧ sent.item.isSome then { sent with sent := now } else sent

/-- What has gone a whole interval without a reply, as `message` puts it. -/
def due {T M : Type} (now : Nat) (inFlight : List (InFlight T)) (message : Nat → T → M) : List M :=
  inFlight.filterMap fun sent =>
    if sent.sent + 1 < now then sent.item.map (message sent.number) else none

/-- Called at a regular interval: re-sends, to every replica, what has gone a
whole interval without a reply. -/
def onIdle (c : Client Op Query) : Client Op Query :=
  let now := c.idlePeriods + 1
  let asks : Bool := c.registering.any fun sent => sent + 1 < now
  let registers : List (Outgoing Op Query) := if asks then [.register] else []
  let requests : List (Outgoing Op Query) := match c.session, c.requests.head? with
    | some session, some oldest =>
        due now c.requests fun number op => .request session number (oldest.number - 1) op
    | _, _ => []
  let resend := registers ++ requests ++ due now c.queries fun number query => .query number query
  { c with
    idlePeriods := now
    registering := if asks then some now else c.registering
    requests := if c.session.isSome then resent now c.requests else c.requests
    queries := resent now c.queries
    outbox := c.outbox ++ resend.flatMap fun outgoing =>
      (List.range c.config.replicas.length).map fun replicaId => (replicaId, outgoing) }

/-- The message `outgoing` of client `clientId`. -/
def message {Chunk : Type} (clientId : Nat) : Outgoing Op Query → Message Op Query Chunk
  | .register => .register clientId
  | .request session requestNumber answered op =>
      .request clientId session requestNumber answered op
  | .query queryNumber query => .query clientId queryNumber query

/-- Messages to send, with the replica each one goes to. -/
def drain {Chunk : Type} (c : Client Op Query) :
    Client Op Query × List (Nat × Message Op Query Chunk) :=
  ({ c with outbox := [] }, c.outbox.map fun sent => (sent.1, message c.clientId sent.2))

end Client

end Vsr
