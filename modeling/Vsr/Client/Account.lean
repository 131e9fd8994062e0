import Vsr.Client

/-!
# What becomes of a client's operations

An `Account` is a client with the operations its owner has given it, in the order
they were issued: which were sent, which completed, and which failed with their
session.  `Account.step` keeps the account while the owner calls the client, in
any order and with any replies.
-/

set_option autoImplicit false

namespace Vsr

/-- An operation a client was given: a query, or a request, whose numbers start
over with every session lost. -/
inductive Ticket where
  | request (epoch : Nat) (number : Nat)
  | query (number : Nat)
  deriving DecidableEq, Repr

def Ticket.isRequest : Ticket → Bool
  | .request .. => true
  | .query _ => false

/-- What the owner of a client calls. -/
inductive ClientCall (Op Query Output : Type) where
  | register
  | request (op : Op)
  | query (query : Query)
  | idle
  | drain
  | reply (reply : Reply Output)

section Tickets
variable {Op Query : Type}

def Queued.ticket (epoch : Nat) : Queued Op Query → Ticket
  | .request number _ => .request epoch number
  | .query number _ => .query number

def Queued.requestNumber : Queued Op Query → Option Nat
  | .request number _ => some number
  | .query .. => none

def Queued.queryNumber : Queued Op Query → Option Nat
  | .request .. => none
  | .query number _ => some number

/-- The operation a message carries, with the session it carries it in. -/
def Outgoing.post (epoch : Nat) : Outgoing Op Query → Option (Ticket × Option Nat)
  | .register => none
  | .request session number _ _ => some (.request epoch number, some session)
  | .query number _ => some (.query number, none)

/-- The numbers in flight without a reply. -/
def unanswered {T : Type} (inFlight : List (InFlight T)) : List Nat :=
  (inFlight.filter (·.item.isSome)).map (·.number)

/-- The operations the client has neither a reply to nor given up. -/
def Client.outstanding (c : Client Op Query) (epoch : Nat) : List Ticket :=
  (unanswered c.requests).map (Ticket.request epoch) ++ (unanswered c.queries).map Ticket.query ++
    c.queued.map (Queued.ticket epoch)

end Tickets

/-- A client, with what has become of its operations so far. -/
structure Account (Op Query : Type) where
  client : Client Op Query
  /-- The sessions lost. -/
  epoch : Nat
  /-- The operations in the order they were issued. -/
  issued : List Ticket
  /-- The operations in the order they were first sent, each with its session. -/
  sent : List (Ticket × Option Nat)
  completed : List Ticket
  failed : List Ticket

namespace Account

variable {Op Query Output : Type}

def new (clientId : Nat) (config : Config) : Account Op Query where
  client := .new clientId config
  epoch := 0
  issued := []
  sent := []
  completed := []
  failed := []

/-- What completed or failed. -/
def settled (a : Account Op Query) : List Ticket := a.completed ++ a.failed

/-- Notes an operation sent, unless it was sent before. -/
def note (sent : List (Ticket × Option Nat)) (post : Ticket × Option Nat) :
    List (Ticket × Option Nat) :=
  if post.1 ∈ sent.map Prod.fst then sent else sent ++ [post]

/-- The operations sent with the messages that `client` has in its outbox after
those it had. -/
def posts (a : Account Op Query) (client : Client Op Query) : List (Ticket × Option Nat) :=
  (client.outbox.drop a.client.outbox.length).filterMap fun message => message.2.post a.epoch

/-- A call has made the client `client`. -/
def became (a : Account Op Query) (client : Client Op Query) : Account Op Query :=
  { a with client := client, sent := (a.posts client).foldl note a.sent }

def issue (a : Account Op Query) (ticket : Ticket) : Account Op Query :=
  { a with issued := a.issued ++ [ticket] }

/-- Settles what a reply completed, or what the client gives up with its session. -/
def settle (a : Account Op Query) : Option (Completion Output) → Account Op Query
  | none => a
  | some (.executed number _) => { a with completed := a.completed ++ [.request a.epoch number] }
  | some (.queried number _) => { a with completed := a.completed ++ [.query number] }
  | some .evicted =>
      { a with failed := a.failed ++ a.client.outstanding a.epoch, epoch := a.epoch + 1 }

def step (a : Account Op Query) : ClientCall Op Query Output → Account Op Query
  | .register => a.became a.client.register
  | .request op =>
      (a.issue (.request a.epoch (a.client.onRequest op).2)).became (a.client.onRequest op).1
  | .query query => (a.issue (.query (a.client.onQuery query).2)).became (a.client.onQuery query).1
  | .idle => a.became a.client.onIdle
  | .drain => { a with client := (@Client.drain Op Query Unit a.client).1 }
  | .reply reply => (a.settle (a.client.onReply reply).2).became (a.client.onReply reply).1

def run (a : Account Op Query) (calls : List (ClientCall Op Query Output)) : Account Op Query :=
  calls.foldl step a

end Account

/-! ## What holds of an account -/

/-- `numbers` follow each other up to the one before `next`. -/
def Consecutive (numbers : List Nat) (next : Nat) : Prop :=
  ∃ first, 1 ≤ first ∧ numbers = List.range' first numbers.length ∧ first + numbers.length = next

/-- What a client may have in flight: consecutive numbers from the oldest one
without a reply on, in a window of `max`. -/
structure Window {T : Type} (inFlight : List (InFlight T)) (max : Nat) : Prop where
  consecutive : ∃ first, inFlight.map (·.number) = List.range' first inFlight.length
  trimmed : ∀ oldest, inFlight.head? = some oldest → oldest.item.isSome
  few : inFlight.length ≤ max
  span : ∀ oldest newest, inFlight.head? = some oldest → inFlight.getLast? = some newest →
    newest.number - oldest.number < max

/-- `u` was issued before `t`. -/
def IssuedBefore (issued : List Ticket) (u t : Ticket) : Prop :=
  ∃ earlier later, issued = earlier ++ t :: later ∧ u ∈ earlier

end Vsr
