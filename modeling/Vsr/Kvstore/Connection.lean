import Vsr.Client.Account
import Vsr.Kvstore.Lines
import Vsr.OrderedMap

/-!
# The connections of a node

A kvstore node is the client of the cluster for each of its connections: it gives
their commands to a `Client` each, and the answers back in the order the commands
came.  The node here is that part of it; its replica, its journal and its store
step beside it.
-/

set_option autoImplicit false

namespace Vsr.Kvstore

open Journal (Text pushNumber)

inductive Command where
  | set (key value : Text)
  | get (key : Text)
  deriving DecidableEq, Repr

/-- What a command went out as: a request, or a query. -/
inductive Ticket where
  | request (requestNumber : Nat)
  | query (queryNumber : Nat)
  deriving DecidableEq, Repr

/-- A command in flight on a connection, with its answer once it has one: it is
held until the commands before it have theirs. -/
structure Pending (Respond : Type) where
  ticket : Ticket
  respond : Respond
  answer : Option Text

/-- A connection's client and the commands it has in flight, in the order they
came. -/
structure Connection (Respond : Type) where
  client : Client Op Text
  pending : List (Pending Respond)

/-- The answer to each command in flight when the session was evicted. -/
def evicted : Text := "-ERR session evicted; the command may or may not have run\r\n".toList

def formatReply : Ticket → Option Text → Text
  | .request _, _ => "+OK\r\n".toList
  | .query _, some value =>
      '$' :: pushNumber (utf8 value).length ++ "\r\n".toList ++ value ++ "\r\n".toList
  | .query _, none => "$-1\r\n".toList

/-- An answer, and where to send it. -/
abbrev Answer (Respond : Type) := Respond × Text

def clientResendTicks : Nat := 5

def flushTicks : Nat := 10

/-- A node, as its connections know it. -/
structure Node (Respond : Type) where
  config : Config
  /-- What this node's clients send. -/
  requests : List (Nat × Message Op Text StoreChunk)
  connections : OrderedMap (Connection Respond)
  /-- Replies for the connections, handed out after each batch. -/
  answers : List (Answer Respond)
  ticks : Nat

/-- What the event loop hands a node. -/
inductive Event (Respond : Type) where
  | message (message : Message Op Text StoreChunk)
  | reply (reply : Reply (Option Text))
  | command (connection : Nat) (command : Command) (respond : Respond)
  | disconnect (connection : Nat)
  | tick
  | written
  | flushed
  | stop

section
variable {Respond : Type}

/-- Gives the first command with `ticket` its answer. -/
def giveAnswer (ticket : Ticket) (answer : Text) : List (Pending Respond) → List (Pending Respond)
  | [] => []
  | pending :: rest =>
      if pending.ticket = ticket then { pending with answer := some answer } :: rest
      else pending :: giveAnswer ticket answer rest

/-- Gives every command without an answer the one of an eviction. -/
def failAll (pending : List (Pending Respond)) : List (Pending Respond) :=
  pending.map fun pending => { pending with answer := some (pending.answer.getD evicted) }

/-- What a completion makes of the commands in flight. -/
def complete (pending : List (Pending Respond)) :
    Option (Completion (Option Text)) → List (Pending Respond)
  | some (.executed requestNumber result) =>
      giveAnswer (.request requestNumber) (formatReply (.request requestNumber) result) pending
  | some (.queried queryNumber result) =>
      giveAnswer (.query queryNumber) (formatReply (.query queryNumber) result) pending
  | some .evicted => failAll pending
  | none => pending

/-- Takes the answers that no command before them holds up. -/
def popAnswered : List (Pending Respond) → List (Answer Respond) × List (Pending Respond)
  | [] => ([], [])
  | pending :: rest =>
      match pending.answer with
      | some answer => ((pending.respond, answer) :: (popAnswered rest).1, (popAnswered rest).2)
      | none => ([], pending :: rest)

namespace Connection

def new (id : Nat) (config : Config) : Connection Respond where
  client := .new id config
  pending := []

/-- The connection whose client has sent what it had to send, and what that was. -/
def drain (connection : Connection Respond) :
    Connection Respond × List (Nat × Message Op Text StoreChunk) :=
  let (client, requests) := connection.client.drain
  ({ connection with client := client }, requests)

/-- Gives the client a command, and notes what it went out as. -/
def command (connection : Connection Respond) (command : Command) (respond : Respond) :
    Connection Respond :=
  let (client, ticket) := match command with
    | .set key value =>
        let (client, requestNumber) := connection.client.onRequest (.put key value)
        (client, Ticket.request requestNumber)
    | .get key =>
        let (client, queryNumber) := connection.client.onQuery key
        (client, Ticket.query queryNumber)
  { client := client
    pending := connection.pending ++ [{ ticket := ticket, respond := respond, answer := none }] }

/-- Handles a reply, and returns the answers it makes ready. -/
def reply (connection : Connection Respond) (reply : Reply (Option Text)) :
    Connection Respond × List (Answer Respond) :=
  let (client, completed) := connection.client.onReply reply
  let (answers, pending) := popAnswered (complete connection.pending completed)
  ({ client := client, pending := pending }, answers)

def onIdle (connection : Connection Respond) : Connection Respond :=
  { connection with client := connection.client.onIdle }

end Connection

namespace Node

/-- A node that has no connection yet. -/
def new (config : Config) : Node Respond where
  config := config
  requests := []
  connections := .empty
  answers := []
  ticks := 0

/-- Queues the answers a reply makes ready on its connection, if it is still
there. -/
def deliverReply (node : Node Respond) (reply : Reply (Option Text)) : Node Respond :=
  match node.connections.get? reply.clientId with
  | none => node
  | some connection =>
      let (connection, answers) := connection.reply reply
      let (connection, requests) := connection.drain
      { node with
        connections := node.connections.insert reply.clientId connection
        answers := node.answers ++ answers
        requests := node.requests ++ requests }

/-- The connection `id`, opened if it is not. -/
def connection (node : Node Respond) (id : Nat) : Connection Respond :=
  (node.connections.get? id).getD (.new id node.config)

def onCommand (node : Node Respond) (id : Nat) (command : Command) (respond : Respond) :
    Node Respond :=
  let (connection, requests) := ((node.connection id).command command respond).drain
  { node with
    connections := node.connections.insert id connection
    requests := node.requests ++ requests }

/-- Re-sends what the clients have waited for too long. -/
def resend (node : Node Respond) : Node Respond :=
  let idled := node.connections.mapValues Connection.onIdle
  { node with
    connections := idled.mapValues fun connection => connection.drain.1
    requests := node.requests ++ idled.values.flatMap fun connection => connection.drain.2 }

/-- Steps a client with one event.  Returns whether the store is due for a flush. -/
def handle (node : Node Respond) : Event Respond → Node Respond × Bool
  | .message _ => (node, false)
  | .reply reply => (node.deliverReply reply, false)
  | .command id command respond => (node.onCommand id command respond, false)
  | .disconnect id => ({ node with connections := node.connections.erase id }, false)
  | .tick =>
      let node := { node with ticks := node.ticks + 1 }
      (if node.ticks % clientResendTicks = 0 then node.resend else node,
        node.ticks % flushTicks = 0)
  | .written => (node, false)
  | .flushed => (node, false)
  | .stop => (node, false)

end Node

end

end Vsr.Kvstore
