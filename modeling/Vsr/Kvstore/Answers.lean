import Vsr.Client.Lawful
import Vsr.Kvstore.Connection

/-!
# The answers of a connection

A ledger of the commands of one connection, each with the completion that settled
it, and that the node answers from the front of it: in order, once, and each
command with its own result.
-/

set_option autoImplicit false

namespace Vsr.Kvstore

open Journal (Text)

/-! ## The ledger of a connection -/

/-- Whether a completion decides the command that went out as `ticket`; request
numbers count within an epoch, which an eviction ends. -/
def decides (epoch : Nat) (completion : Completion (Option Text)) (ticket : Vsr.Ticket) : Bool :=
  match completion with
  | .executed number _ => ticket = .request epoch number
  | .queried number _ => ticket = .query number
  | .evicted => true

/-- What a settled command is answered. -/
def report : Completion (Option Text) → Text
  | .executed .. => "+OK\r\n".toList
  | .queried number result => formatReply (.query number) result
  | .evicted => evicted

/-- A command as the ledger has it: what it went out as, and the first completion
since that decided it. -/
structure Asked (Respond : Type) where
  command : Command
  respond : Respond
  ticket : Vsr.Ticket
  settled : Option (Completion (Option Text))

/-- The commands of a connection in the order they came. -/
structure Ledger (Respond : Type) where
  asked : List (Asked Respond)
  /-- The sessions lost. -/
  epoch : Nat

/-- What the connection's client does that settles or adds a command. -/
inductive Happening (Respond : Type) where
  | issued (command : Command) (respond : Respond) (number : Nat)
  | completed (completion : Completion (Option Text))

section
variable {Respond : Type}

def Command.isSet : Command → Bool
  | .set .. => true
  | .get _ => false

/-- What a command goes out as, with the number its client gave it. -/
def Command.ticket (epoch number : Nat) : Command → Vsr.Ticket
  | .set .. => .request epoch number
  | .get _ => .query number

namespace Asked

def answer (asked : Asked Respond) : Option Text := asked.settled.map report

/-- The answer with where it goes. -/
def reported (asked : Asked Respond) : Option (Answer Respond) :=
  asked.answer.map fun answer => (asked.respond, answer)

def settle (epoch : Nat) (completion : Completion (Option Text)) (asked : Asked Respond) :
    Asked Respond :=
  if asked.settled = none ∧ decides epoch completion asked.ticket then
    { asked with settled := some completion }
  else asked

end Asked

namespace Ledger

def empty : Ledger Respond := ⟨[], 0⟩

def step (ledger : Ledger Respond) : Happening Respond → Ledger Respond
  | .issued command respond number =>
      { ledger with
        asked := ledger.asked ++
          [{ command := command, respond := respond, ticket := command.ticket ledger.epoch number,
             settled := none }] }
  | .completed completion =>
      { asked := ledger.asked.map (Asked.settle ledger.epoch completion)
        epoch := match completion with
          | .evicted => ledger.epoch + 1
          | _ => ledger.epoch }

end Ledger

/-! ## A node over time, as one connection sees it -/

/-- What happens to a node: an event, the requests of its clients sent, and the
answers handed out. -/
inductive Act (Respond : Type) where
  | event (event : Event Respond)
  | beforeWrite
  | handOut

/-- The connection an act is for. -/
def Act.connection? : Act Respond → Option Nat
  | .event (.reply reply) => some reply.clientId
  | .event (.command id _ _) => some id
  | .event (.disconnect id) => some id
  | _ => none

/-- The number the client gives a command. -/
def Connection.numberOf (connection : Connection Respond) : Command → Nat
  | .set key value => (connection.client.onRequest (.put key value)).2
  | .get key => (connection.client.onQuery key).2

namespace Node

def act (node : Node Respond) : Act Respond → Node Respond
  | .event event => (node.handle event).1
  | .beforeWrite => { node with requests := [] }
  | .handOut => { node with answers := [] }

/-- The answers an act queues for the connection `id`. -/
def queuedBy (id : Nat) (node : Node Respond) (act : Act Respond) : List (Answer Respond) :=
  if act.connection? = some id then (node.act act).answers.drop node.answers.length else []

/-- What an act is to the client of the connection `id`. -/
def happening (id : Nat) (node : Node Respond) : Act Respond → Option (Happening Respond)
  | .event (.command other command respond) =>
      if other = id then
        some (.issued command respond ((node.connection id).numberOf command))
      else none
  | .event (.reply reply) =>
      if reply.clientId = id then
        (node.connections.get? id).bind fun connection =>
          (connection.client.onReply reply).2.map .completed
      else none
  | _ => none

end Node

/-- A node with the ledger of one of its connections and the answers queued for it
so far. -/
structure Transcript (Respond : Type) where
  node : Node Respond
  ledger : Ledger Respond
  answers : List (Answer Respond)

namespace Transcript

/-- Nothing has come from the connection yet. -/
def start (node : Node Respond) : Transcript Respond := ⟨node, .empty, []⟩

def step (id : Nat) (transcript : Transcript Respond) (act : Act Respond) : Transcript Respond where
  node := transcript.node.act act
  ledger := (transcript.node.happening id act).elim transcript.ledger transcript.ledger.step
  answers := transcript.answers ++ transcript.node.queuedBy id act

def run (id : Nat) (transcript : Transcript Respond) (acts : List (Act Respond)) :
    Transcript Respond :=
  acts.foldl (step id) transcript

/-- The commands waiting on the connection. -/
def pending (id : Nat) (transcript : Transcript Respond) : List (Pending Respond) :=
  (transcript.node.connections.get? id).elim [] Connection.pending

end Transcript

/-- What a connection is promised: its commands were `asked`, `answers` were queued
for it, and `pending` are waiting. -/
structure Orderly (asked : List (Asked Respond)) (answers : List (Answer Respond))
    (pending : List (Pending Respond)) : Prop where
  /-- The i-th answer is that of the i-th command. -/
  inOrder : answers.map some = (asked.take answers.length).map Asked.reported
  /-- The commands without an answer queued are those waiting. -/
  waiting : pending.map (fun p => (p.respond, p.answer)) =
    (asked.drop answers.length).map fun a => (a.respond, a.answer)
  /-- No answer is held up that could go. -/
  held : ∀ first, pending.head? = some first → first.answer = none
  /-- A SET is settled by the execution of its request or an eviction, a GET by the
  result of its query or an eviction. -/
  own : ∀ a ∈ asked, ∀ completion, a.settled = some completion →
    completion = .evicted ∨
      (a.command.isSet ∧ ∃ epoch number result,
        a.ticket = .request epoch number ∧ completion = .executed number result) ∨
      (!a.command.isSet ∧ ∃ number result,
        a.ticket = .query number ∧ completion = .queried number result)
  /-- No two commands went out as the same request of a session or the same query. -/
  once : (asked.map Asked.ticket).Nodup
  tickets : (pending.map Pending.ticket).Nodup

/-! ## The queue of a connection against its ledger -/

/-- A ticket as the connection has it. -/
def bare : Vsr.Ticket → Ticket
  | .request _ number => .request number
  | .query number => .query number

/-- Whether a ticket is of this epoch, if it is of any. -/
def OfEpoch (epoch : Nat) : Vsr.Ticket → Prop
  | .request of _ => of = epoch
  | .query _ => True

theorem bare_inj {epoch : Nat} {t u : Vsr.Ticket} (isT : OfEpoch epoch t) (isU : OfEpoch epoch u)
    (same : bare t = bare u) : t = u := by
  cases t with
  | request of number =>
      cases u with
      | request of' number' =>
          obtain rfl : of = epoch := isT
          obtain rfl : of' = of := isU
          cases same
          rfl
      | query number' => cases same
  | query number =>
      cases u with
      | request of' number' => cases same
      | query number' =>
          cases same
          rfl

/-- A command of the ledger as the connection has it in flight. -/
def Asked.toPending (asked : Asked Respond) : Pending Respond :=
  { ticket := bare asked.ticket, respond := asked.respond, answer := asked.answer }

/-- What is popped is answered, and what is first then is not. -/
theorem popAnswered_asked (waiting : List (Asked Respond)) :
    ∃ ready rest, waiting = ready ++ rest ∧
      (popAnswered (waiting.map Asked.toPending)).1.map some = ready.map Asked.reported ∧
      (popAnswered (waiting.map Asked.toPending)).2 = rest.map Asked.toPending ∧
      (∀ a ∈ ready, a.settled.isSome) ∧ ∀ first, rest.head? = some first → first.settled = none := by
  induction waiting with
  | nil => exact ⟨[], [], rfl, rfl, rfl, by simp, by simp⟩
  | cons asked waiting ih =>
      cases isSettled : asked.settled with
      | none =>
          have none : asked.toPending.answer = none := by
            simp [Asked.toPending, Asked.answer, isSettled]
          refine ⟨[], asked :: waiting, rfl, ?_, ?_, by simp, ?_⟩
          · simp [popAnswered, none]
          · simp [popAnswered, none]
          · intro first isFirst
            cases isFirst
            exact isSettled
      | some completion =>
          have some : asked.toPending.answer = some (report completion) := by
            simp [Asked.toPending, Asked.answer, isSettled]
          obtain ⟨ready, rest, split, popped, left, settled, head⟩ := ih
          refine ⟨asked :: ready, rest, by rw [split, List.cons_append], ?_, ?_, ?_, head⟩
          · simp only [List.map_cons, popAnswered, some, popped]
            simp [Asked.reported, Asked.answer, isSettled, Asked.toPending]
          · simp only [List.map_cons, popAnswered, some, left]
          · intro a mem
            rcases List.mem_cons.mp mem with rfl | mem
            · simp [isSettled]
            · exact settled a mem

/-- Only one command has a ticket. -/
theorem giveAnswer_eq_map (ticket : Ticket) (answer : Text) {pending : List (Pending Respond)}
    (tickets : (pending.map Pending.ticket).Nodup) :
    giveAnswer ticket answer pending = pending.map fun p =>
      if p.ticket = ticket then { p with answer := some answer } else p := by
  induction pending with
  | nil => rfl
  | cons first rest ih =>
      obtain ⟨fresh, tickets⟩ := List.nodup_cons.mp tickets
      by_cases same : first.ticket = ticket
      · subst same
        have others : (rest.map fun p => if p.ticket = first.ticket then
            { p with answer := some answer } else p) = rest := by
          refine (List.map_congr_left fun p mem => ?_).trans (List.map_id rest)
          have : p.ticket ≠ first.ticket := fun same => fresh (same ▸ List.mem_map_of_mem mem)
          rw [if_neg this]
          rfl
        rw [giveAnswer, if_pos rfl, List.map_cons, if_pos rfl, others]
      · rw [giveAnswer, if_neg same, List.map_cons, if_neg same, ih tickets]

/-- The commands waiting, with what the ledger says of them. -/
structure Waiting (epoch : Nat) (waiting : List (Asked Respond)) : Prop where
  current : ∀ a ∈ waiting, OfEpoch epoch a.ticket
  distinct : (waiting.map Asked.ticket).Nodup

theorem Waiting.tickets {epoch : Nat} {waiting : List (Asked Respond)}
    (holds : Waiting epoch waiting) :
    ((waiting.map Asked.toPending).map Pending.ticket).Nodup := by
  have isBare : (waiting.map Asked.toPending).map Pending.ticket =
      (waiting.map Asked.ticket).map bare := by
    rw [List.map_map, List.map_map]
    rfl
  rw [isBare]
  refine List.Nodup.map_on (fun t isT u isU same => ?_) holds.distinct
  obtain ⟨a, isA, rfl⟩ := List.mem_map.mp isT
  obtain ⟨b, isB, rfl⟩ := List.mem_map.mp isU
  exact bare_inj (holds.current a isA) (holds.current b isB) same

theorem settle_toPending {epoch : Nat} {completion : Completion (Option Text)} {asked : Asked Respond}
    (unsettled : asked.settled = none) (decided : decides epoch completion asked.ticket) :
    (asked.settle epoch completion).toPending =
      { asked.toPending with answer := some (report completion) } := by
  unfold Asked.settle
  rw [if_pos ⟨unsettled, decided⟩]
  rfl

/-- Answering the first command with a ticket settles the one the completion
decides. -/
theorem Waiting.giveAnswer {epoch : Nat} {waiting : List (Asked Respond)}
    (holds : Waiting epoch waiting) {completion : Completion (Option Text)} {t : Vsr.Ticket}
    (isT : OfEpoch epoch t) (decided : ∀ u, decides epoch completion u = true ↔ u = t)
    (unsettled : ∀ a ∈ waiting, a.ticket = t → a.settled = none) :
    giveAnswer (bare t) (report completion) (waiting.map Asked.toPending) =
      (waiting.map (Asked.settle epoch completion)).map Asked.toPending := by
  rw [giveAnswer_eq_map _ _ holds.tickets, List.map_map, List.map_map]
  refine List.map_congr_left fun a mem => ?_
  by_cases same : a.ticket = t
  · have isPending : a.toPending.ticket = bare t := congrArg bare same
    rw [Function.comp_apply, Function.comp_apply, if_pos isPending,
      settle_toPending (unsettled a mem same) ((decided _).mpr same)]
  · have others : a.toPending.ticket ≠ bare t := fun isBare =>
      same (bare_inj (holds.current a mem) isT isBare)
    have stays : a.settle epoch completion = a :=
      if_neg fun both => same ((decided _).mp both.2)
    rw [Function.comp_apply, Function.comp_apply, if_neg others, stays]

/-- An eviction settles all that waits. -/
theorem failAll_asked (epoch : Nat) (waiting : List (Asked Respond)) :
    failAll (waiting.map Asked.toPending) =
      (waiting.map (Asked.settle epoch .evicted)).map Asked.toPending := by
  unfold failAll
  rw [List.map_map, List.map_map]
  refine List.map_congr_left fun a _ => ?_
  rw [Function.comp_apply, Function.comp_apply]
  cases isSettled : a.settled with
  | none =>
      rw [settle_toPending isSettled rfl]
      simp [Asked.toPending, Asked.answer, isSettled, report]
  | some completion =>
      have stays : a.settle epoch .evicted = a := if_neg fun both => by simp [isSettled] at both
      rw [stays]
      simp [Asked.toPending, Asked.answer, isSettled]

/-! ## What one connection keeps -/

/-- A connection against its ledger and the account of its client's operations:
the commands `done` were answered, and those `waiting` are in flight. -/
structure Books (connection : Connection Respond) (ledger : Ledger Respond)
    (answers : List (Answer Respond)) (account : Account Op Text)
    (done waiting : List (Asked Respond)) : Prop where
  client : account.client = connection.client
  inv : account.Inv
  progress : account.client.Progress
  epoch : ledger.epoch = account.epoch
  asked : ledger.asked = done ++ waiting
  issued : ledger.asked.map Asked.ticket = account.issued
  settled : ∀ a ∈ ledger.asked, a.settled.isSome ↔ a.ticket ∈ account.settled
  kinds : ∀ a ∈ ledger.asked, a.ticket.isRequest = a.command.isSet
  decided : ∀ a ∈ ledger.asked, ∀ completion, a.settled = some completion →
    ∃ epoch, decides epoch completion a.ticket = true
  answered : answers.map some = done.map Asked.reported
  pending : connection.pending = waiting.map Asked.toPending
  held : ∀ first, waiting.head? = some first → first.settled = none
  current : ∀ a ∈ waiting, OfEpoch ledger.epoch a.ticket

namespace Books

variable {connection : Connection Respond} {ledger : Ledger Respond}
  {answers : List (Answer Respond)} {account : Account Op Text} {done waiting : List (Asked Respond)}

theorem new (id : Nat) (config : Config) :
    Books (.new id config : Connection Respond) .empty [] (.new id config) [] [] where
  client := rfl
  inv := Account.inv_new id config
  progress queued := absurd rfl queued
  epoch := rfl
  asked := rfl
  issued := rfl
  settled a mem := by cases mem
  kinds a mem := by cases mem
  decided a mem := by cases mem
  answered := rfl
  pending := rfl
  held first isFirst := by cases isFirst
  current a mem := by cases mem

theorem distinct (books : Books connection ledger answers account done waiting) :
    (ledger.asked.map Asked.ticket).Nodup :=
  books.issued ▸ books.inv.nodup

theorem waits (books : Books connection ledger answers account done waiting) :
    Waiting ledger.epoch waiting where
  current := books.current
  distinct := by
    have all := books.distinct
    rw [books.asked, List.map_append] at all
    exact (List.nodup_append.mp all).2.1

theorem orderly (books : Books connection ledger answers account done waiting) :
    Orderly ledger.asked answers connection.pending := by
  have isLength : answers.length = done.length := by
    simpa using congrArg List.length books.answered
  have isDone : ledger.asked.take answers.length = done := by
    rw [books.asked, isLength, List.take_left]
  have isWaiting : ledger.asked.drop answers.length = waiting := by
    rw [books.asked, isLength, List.drop_left]
  constructor
  · rw [isDone]
    exact books.answered
  · rw [isWaiting, books.pending, List.map_map]
    rfl
  · intro first isFirst
    rw [books.pending, List.head?_map] at isFirst
    obtain ⟨a, isHead, rfl⟩ := Option.map_eq_some_iff.mp isFirst
    simp [Asked.toPending, Asked.answer, books.held a isHead]
  · intro a mem completion isSettled
    obtain ⟨epoch, decided⟩ := books.decided a mem completion isSettled
    have kind := books.kinds a mem
    cases completion with
    | executed number result =>
        have isTicket : a.ticket = .request epoch number := of_decide_eq_true decided
        rw [isTicket] at kind
        exact .inr (.inl ⟨kind.symm, epoch, number, result, isTicket, rfl⟩)
    | queried number result =>
        have isTicket : a.ticket = .query number := of_decide_eq_true decided
        rw [isTicket] at kind
        exact .inr (.inr ⟨by rw [← kind]; rfl, number, result, isTicket, rfl⟩)
    | evicted => exact .inl rfl
  · exact books.distinct
  · rw [books.pending]
    exact books.waits.tickets

/-- A call to the client that neither issues nor settles anything. -/
theorem quiet (books : Books connection ledger answers account done waiting)
    (call : ClientCall Op Text (Option Text)) {client : Client Op Text}
    (isClient : (account.step call).client = client)
    (epoch : (account.step call).epoch = account.epoch)
    (issued : (account.step call).issued = account.issued)
    (settled : (account.step call).settled = account.settled) :
    Books { connection with client := client } ledger answers (account.step call) done waiting := by
  obtain ⟨inv, progress⟩ := Account.inv_step books.inv books.progress call
  exact
    { books with
      client := isClient
      inv := inv
      progress := progress
      epoch := books.epoch.trans epoch.symm
      issued := books.issued.trans issued.symm
      settled := fun a mem => settled ▸ books.settled a mem }

theorem onIdle (books : Books connection ledger answers account done waiting) :
    Books connection.onIdle ledger answers
      (account.step (.idle : ClientCall Op Text (Option Text))) done waiting :=
  books.quiet .idle (congrArg Client.onIdle books.client) rfl rfl rfl

theorem drain (books : Books connection ledger answers account done waiting) :
    Books connection.drain.1 ledger answers
      (account.step (.drain : ClientCall Op Text (Option Text))) done waiting :=
  books.quiet .drain (congrArg (fun client => { client with outbox := [] }) books.client) rfl rfl rfl

/-- The number a command is given, and its client then. -/
theorem command (books : Books connection ledger answers account done waiting) (command : Command)
    (respond : Respond) (call : ClientCall Op Text (Option Text)) {number : Nat}
    {client : Client Op Text}
    (isClient : (account.step call).client = client)
    (isCommand : connection.command command respond =
      { client := client
        pending := connection.pending ++ [⟨bare (command.ticket ledger.epoch number), respond, none⟩] })
    (epoch : (account.step call).epoch = account.epoch)
    (issued : (account.step call).issued =
      account.issued ++ [command.ticket account.epoch number])
    (settled : (account.step call).settled = account.settled) :
    ∃ asked, Books (connection.command command respond)
      (ledger.step (.issued command respond number)) answers (account.step call) done
      (waiting ++ [asked]) := by
  obtain ⟨inv, progress⟩ := Account.inv_step books.inv books.progress call
  have isNew : (command.ticket ledger.epoch number) ∉ account.settled := by
    intro isSettled
    have before := books.inv.settledIssued _ isSettled
    have once := inv.nodup
    rw [issued, ← books.epoch] at once
    exact (List.nodup_append.mp once).2.2 _ before _ (List.mem_singleton_self _) rfl
  refine ⟨⟨command, respond, command.ticket ledger.epoch number, none⟩, ?_⟩
  have isAsked : (ledger.step (.issued command respond number)).asked =
      ledger.asked ++ [⟨command, respond, command.ticket ledger.epoch number, none⟩] := rfl
  have each : ∀ a, a ∈ (ledger.step (.issued command respond number)).asked →
      a ∈ ledger.asked ∨ a = ⟨command, respond, command.ticket ledger.epoch number, none⟩ := by
    intro a mem
    rw [isAsked] at mem
    exact (List.mem_append.mp mem).imp_right List.mem_singleton.mp
  constructor
  · rw [isCommand]
    exact isClient
  · exact inv
  · exact progress
  · exact books.epoch.trans epoch.symm
  · rw [isAsked, books.asked, List.append_assoc]
  · rw [isAsked, List.map_append, books.issued, issued, books.epoch]
    rfl
  · intro a mem
    rw [settled]
    rcases each a mem with old | rfl
    · exact books.settled a old
    · simp [isNew]
  · intro a mem
    rcases each a mem with old | rfl
    · exact books.kinds a old
    · cases command <;> rfl
  · intro a mem completion isSettled
    rcases each a mem with old | rfl
    · exact books.decided a old completion isSettled
    · cases isSettled
  · exact books.answered
  · rw [isCommand, List.map_append, ← books.pending]
    rfl
  · intro first isFirst
    cases waiting with
    | nil =>
        cases isFirst
        rfl
    | cons oldest rest => exact books.held first isFirst
  · intro a mem
    rcases List.mem_append.mp mem with old | isNew
    · exact books.current a old
    · rw [List.mem_singleton.mp isNew]
      cases command with
      | set key value => exact rfl
      | get key => trivial

theorem onCommand (books : Books connection ledger answers account done waiting) (command : Command)
    (respond : Respond) :
    ∃ account asked, Books (connection.command command respond)
      (ledger.step (.issued command respond (connection.numberOf command))) answers account done
      (waiting ++ [asked]) := by
  cases command with
  | set key value =>
      refine ⟨account.step (.request (.put key value)), books.command (.set key value) respond
        (.request (.put key value)) ?_ rfl rfl ?_ rfl⟩
      · exact congrArg (fun client => (Client.onRequest client (Op.put key value)).1) books.client
      · unfold Connection.numberOf
        rw [← books.client]
        rfl
  | get key =>
      refine ⟨account.step (.query key), books.command (.get key) respond (.query key) ?_ rfl rfl ?_ rfl⟩
      · exact congrArg (fun client => (Client.onQuery client key).1) books.client
      · unfold Connection.numberOf
        rw [← books.client]
        rfl

/-- What the client settles with a completion is what the completion decides. -/
theorem settle_settled {completion : Completion (Option Text)} (inv : account.Inv)
    {t : Vsr.Ticket} (isIssued : t ∈ account.issued) :
    t ∈ (account.settle (some completion)).settled ↔
      t ∈ account.settled ∨ decides account.epoch completion t := by
  unfold Account.settled
  cases completion with
  | executed number result =>
      simp only [Account.settle, decides, List.mem_append, List.mem_singleton, decide_eq_true_eq]
      tauto
  | queried number result =>
      simp only [Account.settle, decides, List.mem_append, List.mem_singleton, decide_eq_true_eq]
      tauto
  | evicted =>
      have left : t ∈ account.client.outstanding account.epoch ↔ t ∉ account.settled := by
        rw [← inv.outstanding, List.mem_filter]
        simp [isIssued]
      unfold Account.settled at left
      simp only [Account.settle, decides, List.mem_append, iff_true, or_true]
      simp only [List.mem_append] at left
      tauto

theorem settle_isSome (epoch : Nat) (completion : Completion (Option Text)) (a : Asked Respond) :
    (a.settle epoch completion).settled.isSome ↔
      a.settled.isSome ∨ decides epoch completion a.ticket := by
  unfold Asked.settle
  split
  · next both => simp [both.2]
  · next neither =>
    rw [not_and, ← Option.isNone_iff_eq_none] at neither
    cases isSettled : a.settled with
    | none => simp [neither (by simp [isSettled])]
    | some before => simp

theorem settle_ticket (epoch : Nat) (completion : Completion (Option Text)) (a : Asked Respond) :
    (a.settle epoch completion).ticket = a.ticket := by
  unfold Asked.settle
  split <;> rfl

theorem settle_command (epoch : Nat) (completion : Completion (Option Text)) (a : Asked Respond) :
    (a.settle epoch completion).command = a.command := by
  unfold Asked.settle
  split <;> rfl

/-- What is settled stays so. -/
theorem map_settle_settled {epoch : Nat} {completion : Completion (Option Text)}
    {asked : List (Asked Respond)} (settled : ∀ a ∈ asked, a.settled.isSome) :
    asked.map (Asked.settle epoch completion) = asked := by
  refine (List.map_congr_left fun a mem => ?_).trans (List.map_id asked)
  have := settled a mem
  exact if_neg fun both => by simp [both.1] at this

/-- The commands answered are settled. -/
theorem done_settled (books : Books connection ledger answers account done waiting) :
    ∀ a ∈ done, a.settled.isSome := by
  intro a mem
  have isReported : a.reported ∈ done.map Asked.reported := List.mem_map_of_mem mem
  rw [← books.answered] at isReported
  obtain ⟨answer, _, isAnswer⟩ := List.mem_map.mp isReported
  unfold Asked.reported Asked.answer at isAnswer
  cases isSettled : a.settled with
  | none => simp [isSettled] at isAnswer
  | some completion => rfl

/-- What a completion decides was not settled before. -/
theorem unsettled (books : Books connection ledger answers account done waiting)
    {completion : Completion (Option Text)} (once : (account.settle (some completion)).settled.Nodup)
    {t : Vsr.Ticket} (isT : (account.settle (some completion)).completed = account.completed ++ [t])
    (failed : (account.settle (some completion)).failed = account.failed) :
    ∀ a ∈ waiting, a.ticket = t → a.settled = none := by
  rintro a mem rfl
  have isAsked : a ∈ ledger.asked := by
    rw [books.asked]
    exact List.mem_append_right _ mem
  unfold Account.settled at once
  rw [isT, failed, List.append_assoc] at once
  obtain ⟨_, right, apart⟩ := List.nodup_append.mp once
  obtain ⟨fresh, _⟩ := List.nodup_cons.mp right
  have isNew : a.ticket ∉ account.settled := by
    intro isSettled
    rcases List.mem_append.mp isSettled with completed | failed
    · exact apart _ completed _ List.mem_cons_self rfl
    · exact fresh failed
  rw [← books.settled a isAsked] at isNew
  simpa using isNew

/-- The commands in flight are answered as the ledger settles them. -/
theorem complete_pending (books : Books connection ledger answers account done waiting)
    {completion : Completion (Option Text)}
    (once : (account.settle (some completion)).settled.Nodup) :
    complete connection.pending (some completion) =
      (waiting.map (Asked.settle ledger.epoch completion)).map Asked.toPending := by
  rw [books.pending]
  cases completion with
  | executed number result =>
      have decided : ∀ u, decides ledger.epoch (.executed number result) u = true ↔
          u = .request ledger.epoch number := fun u => decide_eq_true_iff
      have isCurrent : OfEpoch ledger.epoch (.request ledger.epoch number) := rfl
      exact books.waits.giveAnswer isCurrent decided
        (books.unsettled once (by rw [books.epoch]; rfl) rfl)
  | queried number result =>
      have decided : ∀ u, decides ledger.epoch (.queried number result) u = true ↔
          u = .query number := fun u => decide_eq_true_iff
      have isCurrent : OfEpoch ledger.epoch (.query number) := trivial
      exact books.waits.giveAnswer isCurrent decided (books.unsettled once rfl rfl)
  | evicted => exact failAll_asked ledger.epoch waiting

/-- A completion settles commands of the ledger and answers them on the connection. -/
theorem completed (books : Books connection ledger answers account done waiting)
    {account' : Account Op Text} {completion : Completion (Option Text)} (inv : account'.Inv)
    (progress : account'.client.Progress)
    (isAccount : account' = { account.settle (some completion) with
      client := account'.client, sent := account'.sent }) :
    ∃ done' waiting', Books
      { client := account'.client
        pending := (popAnswered (complete connection.pending (some completion))).2 }
      (ledger.step (.completed completion))
      (answers ++ (popAnswered (complete connection.pending (some completion))).1)
      account' done' waiting' := by
  have isSettled : account'.settled = (account.settle (some completion)).settled := by
    rw [isAccount]
    rfl
  have isIssued : account'.issued = account.issued := by
    rw [isAccount]
    cases completion <;> rfl
  have isEpoch : account'.epoch = (ledger.step (.completed completion)).epoch := by
    rw [isAccount]
    cases completion <;> simp [Account.settle, Ledger.step, books.epoch]
  have answered := books.complete_pending (isSettled ▸ inv.once)
  obtain ⟨ready, rest, split, popped, left, settled, head⟩ :=
    popAnswered_asked (waiting.map (Asked.settle ledger.epoch completion))
  rw [← answered] at popped left
  have isAsked : (ledger.step (.completed completion)).asked = (done ++ ready) ++ rest := by
    show ledger.asked.map _ = _
    rw [books.asked, List.map_append, map_settle_settled books.done_settled, split,
      List.append_assoc]
  have each : ∀ a ∈ (ledger.step (.completed completion)).asked, ∃ b ∈ ledger.asked,
      b.settle ledger.epoch completion = a := fun a mem => List.mem_map.mp mem
  refine ⟨done ++ ready, rest, ?_⟩
  constructor
  · rfl
  · exact inv
  · exact progress
  · exact isEpoch.symm
  · exact isAsked
  · rw [isIssued, ← books.issued]
    show (ledger.asked.map _).map _ = _
    rw [List.map_map]
    exact List.map_congr_left fun a _ => settle_ticket ledger.epoch completion a
  · intro a mem
    obtain ⟨b, isB, rfl⟩ := each a mem
    have wasIssued : b.ticket ∈ account.issued := books.issued ▸ List.mem_map_of_mem isB
    rw [settle_isSome, settle_ticket, isSettled, settle_settled books.inv wasIssued,
      books.settled b isB, books.epoch]
  · intro a mem
    obtain ⟨b, isB, rfl⟩ := each a mem
    rw [settle_ticket, settle_command]
    exact books.kinds b isB
  · intro a mem by' isBy
    obtain ⟨b, isB, rfl⟩ := each a mem
    rw [settle_ticket]
    unfold Asked.settle at isBy
    split at isBy
    · next both =>
      cases isBy
      exact ⟨ledger.epoch, both.2⟩
    · exact books.decided b isB by' isBy
  · rw [List.map_append, List.map_append, books.answered, popped]
  · exact left
  · exact head
  · intro a mem
    have isWaiting : a ∈ waiting.map (Asked.settle ledger.epoch completion) := by
      rw [split]
      exact List.mem_append_right _ mem
    obtain ⟨b, isB, rfl⟩ := List.mem_map.mp isWaiting
    rw [settle_ticket]
    cases completion with
    | executed number result => exact books.current b isB
    | queried number result => exact books.current b isB
    | evicted =>
        -- an eviction leaves nothing waiting
        exfalso
        cases rest with
        | nil => cases mem
        | cons first rest =>
            have none := head first rfl
            have isFirst : first ∈ waiting.map (Asked.settle ledger.epoch .evicted) := by
              rw [split]
              exact List.mem_append_right _ List.mem_cons_self
            obtain ⟨c, _, rfl⟩ := List.mem_map.mp isFirst
            have some := (settle_isSome ledger.epoch .evicted c).mpr (.inr rfl)
            rw [none] at some
            cases some

/-- Nothing more can go without a completion. -/
theorem popAnswered_pending (books : Books connection ledger answers account done waiting) :
    popAnswered connection.pending = ([], connection.pending) := by
  rw [books.pending]
  cases waiting with
  | nil => rfl
  | cons first rest =>
      have none : first.toPending.answer = none := by
        simp [Asked.toPending, Asked.answer, books.held first rfl]
      simp [popAnswered, none]

theorem reply (books : Books connection ledger answers account done waiting)
    (reply : Reply (Option Text)) :
    ∃ account done waiting, Books (connection.reply reply).1
      ((connection.client.onReply reply).2.elim ledger fun completion =>
        ledger.step (.completed completion))
      (answers ++ (connection.reply reply).2) account done waiting := by
  obtain ⟨inv, progress⟩ := Account.inv_step books.inv books.progress (.reply reply)
  have isClient : (account.step (.reply reply)).client = (connection.client.onReply reply).1 :=
    congrArg (fun client => (Client.onReply client reply).1) books.client
  cases completes : (connection.client.onReply reply).2 with
  | none =>
      have completes' : (account.client.onReply reply).2 = none := by rw [books.client, completes]
      have unsettled : account.step (.reply reply) =
          account.became (account.client.onReply reply).1 := by
        simp only [Account.step, completes', Account.settle]
      have stays : (connection.reply reply) =
          ({ connection with client := (connection.client.onReply reply).1 }, []) := by
        simp only [Connection.reply, completes, complete, books.popAnswered_pending]
      rw [stays, List.append_nil]
      exact ⟨_, done, waiting, books.quiet (.reply reply) isClient
        (by rw [unsettled]; rfl) (by rw [unsettled]; rfl) (by rw [unsettled]; rfl)⟩
  | some completion =>
      have completes' : (account.client.onReply reply).2 = some completion := by
        rw [books.client, completes]
      have isAccount : account.step (.reply reply) = { account.settle (some completion) with
          client := (account.step (.reply reply)).client
          sent := (account.step (.reply reply)).sent } := by
        simp only [Account.step, completes']
        rfl
      obtain ⟨done', waiting', books'⟩ := books.completed inv progress isAccount
      rw [isClient] at books'
      refine ⟨account.step (.reply reply), done', waiting', ?_⟩
      simp only [Connection.reply, completes]
      exact books'

end Books

/-! ## Nodes -/

/-- The connection `id` of the node keeps the books the transcript has of it, once
its first command has come. -/
def Transcript.Kept (id : Nat) (transcript : Transcript Respond) : Prop :=
  match transcript.node.connections.get? id with
  | none => transcript.ledger = .empty ∧ transcript.answers = []
  | some connection => ∃ account done waiting,
      Books connection transcript.ledger transcript.answers account done waiting

namespace Node

variable {id : Nat}

/-- What an act for another connection, or for none, leaves of a connection. -/
theorem act_other (node : Node Respond) (act : Act Respond) (other : act.connection? ≠ some id) :
    ((node.act act).connections.get? id = node.connections.get? id ∨
      (node.act act).connections.get? id =
        (node.connections.get? id).map fun connection => connection.onIdle.drain.1) ∧
    node.happening id act = none ∧ node.queuedBy id act = [] := by
  refine ⟨?_, ?_, if_neg other⟩
  · cases act with
    | beforeWrite => exact .inl rfl
    | handOut => exact .inl rfl
    | event event =>
        cases event with
        | message message => exact .inl rfl
        | written => exact .inl rfl
        | flushed => exact .inl rfl
        | stop => exact .inl rfl
        | reply reply =>
            left
            have different : reply.clientId ≠ id := fun same => other (congrArg some same)
            show (node.deliverReply reply).connections.get? id = _
            unfold deliverReply
            split
            · rfl
            · exact (OrderedMap.get?_insert _ _ _ _).trans (if_neg different)
        | command of command respond =>
            left
            have different : of ≠ id := fun same => other (congrArg some same)
            exact (OrderedMap.get?_insert _ _ _ _).trans (if_neg different)
        | disconnect of =>
            left
            have different : of ≠ id := fun same => other (congrArg some same)
            exact (OrderedMap.get?_erase _ _ _).trans (if_neg different)
        | tick =>
            by_cases due : (node.ticks + 1) % clientResendTicks = 0
            · have isNode : node.act (.event .tick) =
                  Node.resend { node with ticks := node.ticks + 1 } := if_pos due
              right
              rw [isNode]
              unfold Node.resend
              rw [OrderedMap.get?_mapValues, OrderedMap.get?_mapValues, Option.map_map]
              rfl
            · have isNode : node.act (.event .tick) = { node with ticks := node.ticks + 1 } :=
                if_neg due
              left
              rw [isNode]
  · cases act with
    | beforeWrite => rfl
    | handOut => rfl
    | event event =>
        cases event with
        | reply reply => exact if_neg fun same => other (congrArg some same)
        | command of command respond => exact if_neg fun same => other (congrArg some same)
        | _ => rfl

theorem queuedBy_command (node : Node Respond) (command : Command) (respond : Respond) :
    node.queuedBy id (.event (.command id command respond)) = [] := by
  have queued : node.queuedBy id (.event (.command id command respond)) =
      node.answers.drop node.answers.length := if_pos rfl
  rw [queued, List.drop_length]

theorem queuedBy_reply {node : Node Respond} {reply : Reply (Option Text)} {connection : Connection Respond}
    (isId : reply.clientId = id) (found : node.connections.get? id = some connection) :
    node.queuedBy id (.event (.reply reply)) = (connection.reply reply).2 ∧
      (node.act (.event (.reply reply))).connections.get? id =
        some (connection.reply reply).1.drain.1 := by
  subst isId
  have delivered : node.act (.event (.reply reply)) = { node with
      connections := node.connections.insert reply.clientId (connection.reply reply).1.drain.1
      answers := node.answers ++ (connection.reply reply).2
      requests := node.requests ++ (connection.reply reply).1.drain.2 } := by
    show node.deliverReply reply = _
    unfold deliverReply
    rw [found]
  constructor
  · have queued : node.queuedBy reply.clientId (.event (.reply reply)) =
        (node.act (.event (.reply reply))).answers.drop node.answers.length := if_pos rfl
    rw [queued, delivered]
    exact List.drop_left
  · rw [delivered]
    exact (OrderedMap.get?_insert _ _ _ _).trans (if_pos rfl)

end Node

namespace Transcript

variable {transcript : Transcript Respond} {id : Nat}

theorem Kept.of_some {connection : Connection Respond}
    (found : transcript.node.connections.get? id = some connection)
    (books : ∃ account done waiting,
      Books connection transcript.ledger transcript.answers account done waiting) :
    transcript.Kept id := by
  unfold Kept
  rw [found]
  exact books

/-- The books of a connection, opened if it is not. -/
theorem Kept.opened (kept : transcript.Kept id) : ∃ account done waiting,
    Books (transcript.node.connection id) transcript.ledger transcript.answers account done
      waiting := by
  unfold Kept at kept
  unfold Node.connection
  cases found : transcript.node.connections.get? id with
  | none =>
      rw [found] at kept
      rw [kept.1, kept.2]
      exact ⟨_, _, _, Books.new id transcript.node.config⟩
  | some connection =>
      rw [found] at kept
      exact kept

theorem Kept.step (kept : transcript.Kept id) (act : Act Respond)
    (connected : act ≠ .event (.disconnect id)) : (transcript.step id act).Kept id := by
  by_cases isFor : act.connection? = some id
  · cases act with
    | beforeWrite => cases isFor
    | handOut => cases isFor
    | event event =>
        cases event with
        | message message => cases isFor
        | tick => cases isFor
        | written => cases isFor
        | flushed => cases isFor
        | stop => cases isFor
        | disconnect of =>
            cases isFor
            exact absurd rfl connected
        | command of command respond =>
            obtain rfl : of = id := Option.some.inj isFor
            obtain ⟨account, done, waiting, books⟩ := kept.opened
            obtain ⟨account, asked, books⟩ := books.onCommand command respond
            have found : (transcript.step of (.event (.command of command respond))).node.connections.get?
                of = some ((transcript.node.connection of).command command respond).drain.1 :=
              (OrderedMap.get?_insert _ _ _ _).trans (if_pos rfl)
            refine Kept.of_some found ?_
            have isLedger : (transcript.step of (.event (.command of command respond))).ledger =
                transcript.ledger.step (.issued command respond
                  ((transcript.node.connection of).numberOf command)) := by
              show Option.elim (if of = of then _ else _) _ _ = _
              rw [if_pos rfl]
              rfl
            have isAnswers : (transcript.step of (.event (.command of command respond))).answers =
                transcript.answers := by
              show transcript.answers ++ transcript.node.queuedBy of _ = _
              rw [Node.queuedBy_command, List.append_nil]
            rw [isLedger, isAnswers]
            exact ⟨_, done, waiting ++ [asked], books.drain⟩
        | reply reply =>
            have isId : reply.clientId = id := Option.some.inj isFor
            cases found : transcript.node.connections.get? id with
            | none =>
                have unchanged : transcript.node.act (.event (.reply reply)) = transcript.node := by
                  show transcript.node.deliverReply reply = _
                  unfold Node.deliverReply
                  rw [isId, found]
                have quiet : transcript.node.happening id (.event (.reply reply)) = none := by
                  show (if reply.clientId = id then _ else _) = _
                  rw [if_pos isId, found]
                  rfl
                have silent : transcript.node.queuedBy id (.event (.reply reply)) = [] := by
                  unfold Node.queuedBy
                  rw [if_pos isFor, unchanged, List.drop_length]
                have same : transcript.step id (.event (.reply reply)) = transcript := by
                  unfold Transcript.step
                  rw [unchanged, quiet, silent, List.append_nil]
                  rfl
                rw [same]
                exact kept
            | some connection =>
                unfold Kept at kept
                rw [found] at kept
                obtain ⟨account, done, waiting, books⟩ := kept
                obtain ⟨account, done, waiting, books⟩ := books.reply reply
                obtain ⟨isQueued, isConnection⟩ := Node.queuedBy_reply isId found
                refine Kept.of_some isConnection ?_
                have isLedger : (transcript.step id (.event (.reply reply))).ledger =
                    (connection.client.onReply reply).2.elim transcript.ledger fun completion =>
                      transcript.ledger.step (.completed completion) := by
                  show Option.elim (if reply.clientId = id then _ else _) _ _ = _
                  rw [if_pos isId, found, Option.bind_some]
                  cases completes : (connection.client.onReply reply).2 <;> rfl
                have isAnswers : (transcript.step id (.event (.reply reply))).answers =
                    transcript.answers ++ (connection.reply reply).2 :=
                  congrArg (transcript.answers ++ ·) isQueued
                rw [isLedger, isAnswers]
                exact ⟨_, done, waiting, books.drain⟩
  · obtain ⟨isConnection, quiet, silent⟩ := transcript.node.act_other act isFor
    have isStep : transcript.step id act = { transcript with node := transcript.node.act act } := by
      unfold Transcript.step
      rw [quiet, silent, List.append_nil]
      rfl
    rw [isStep]
    unfold Kept at kept ⊢
    rcases isConnection with same | idled
    · dsimp only
      rw [same]
      exact kept
    · dsimp only
      rw [idled]
      cases found : transcript.node.connections.get? id with
      | none =>
          rw [found] at kept
          exact kept
      | some connection =>
          rw [found] at kept
          obtain ⟨account, done, waiting, books⟩ := kept
          exact ⟨_, done, waiting, books.onIdle.drain⟩

theorem Kept.run (kept : transcript.Kept id) {acts : List (Act Respond)}
    (connected : ∀ act ∈ acts, act ≠ .event (.disconnect id)) : (transcript.run id acts).Kept id := by
  induction acts generalizing transcript with
  | nil => exact kept
  | cons act rest ih =>
      exact ih (kept.step act (connected act List.mem_cons_self)) fun later mem =>
        connected later (List.mem_cons_of_mem _ mem)

theorem Kept.orderly (kept : transcript.Kept id) :
    Orderly transcript.ledger.asked transcript.answers (transcript.pending id) := by
  unfold Transcript.pending
  cases found : transcript.node.connections.get? id with
  | none =>
      unfold Kept at kept
      rw [found] at kept
      rw [kept.1, kept.2]
      exact (Books.new id transcript.node.config).orderly
  | some connection =>
      unfold Kept at kept
      rw [found] at kept
      obtain ⟨account, done, waiting, books⟩ := kept
      exact books.orderly

/-- A connection is answered in order, once, and each command with its own result,
from when it opens, whatever else happens to the node. -/
theorem run_orderly (node : Node Respond) (id : Nat) (closed : node.connections.get? id = none)
    (acts : List (Act Respond)) (connected : ∀ act ∈ acts, act ≠ .event (.disconnect id)) :
    let transcript := (start node).run id acts
    Orderly transcript.ledger.asked transcript.answers (transcript.pending id) := by
  have kept : (start node).Kept id := by
    unfold Kept start
    dsimp only
    rw [closed]
    exact ⟨rfl, rfl⟩
  exact (kept.run connected).orderly

/-- A SET answered, then two GETs: the second has its result when the session is
evicted. -/
def heldAcross : List (Act Nat) :=
  [.event (.command 1 (.set "a".toList "x".toList) 0), .event (.reply (.registered 0 1 1)),
    .event (.reply (.executed 0 1 1 1 none)), .event (.command 1 (.get "a".toList) 1),
    .event (.command 1 (.get "b".toList) 2), .event (.reply (.queried 0 1 2 (some "y".toList))),
    .event (.reply (.evicted 0 1 1))]

theorem run_orderly_evicted :
    let transcript := (start (.new Config.new.addReplica)).run 1 heldAcross
    Orderly transcript.ledger.asked transcript.answers (transcript.pending 1) :=
  run_orderly _ 1 rfl heldAcross (by simp [heldAcross])

example : ((start (.new Config.new.addReplica)).run 1 heldAcross).answers =
    [(0, "+OK\r\n".toList), (1, evicted), (2, "$1\r\ny\r\n".toList)] := by
  decide +kernel

end Transcript

end

end Vsr.Kvstore
