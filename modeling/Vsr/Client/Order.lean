import Vsr.Client.Account

/-!
# A client keeps the order of its operations

Whatever its owner calls and whatever replies arrive, a client sends its
operations in the order they were issued, never requests and queries at the same
time, and completes each at most once; with its session it gives up exactly those
it has no reply to.
-/

set_option autoImplicit false

namespace Vsr

variable {Op Query Output T : Type}

/-! ## Numbers in flight -/

theorem Consecutive.nil {next : Nat} (pos : 1 ≤ next) : Consecutive [] next :=
  ⟨next, pos, rfl, rfl⟩

theorem Consecutive.snoc {numbers : List Nat} {next : Nat} (consecutive : Consecutive numbers next) :
    Consecutive (numbers ++ [next]) (next + 1) := by
  obtain ⟨first, pos, isRange, isNext⟩ := consecutive
  refine ⟨first, pos, ?_, by simp only [List.length_append, List.length_singleton]; omega⟩
  rw [List.length_append, List.length_singleton, List.range'_concat, ← isRange]
  congr 2
  omega

theorem Consecutive.drop {numbers : List Nat} {next : Nat} (consecutive : Consecutive numbers next)
    {count : Nat} (le : count ≤ numbers.length) : Consecutive (numbers.drop count) next := by
  obtain ⟨first, pos, isRange, isNext⟩ := consecutive
  refine ⟨first + count, by omega, ?_, by rw [List.length_drop]; omega⟩
  rw [List.length_drop]
  conv_lhs => rw [isRange]
  rw [List.drop_range', Nat.mul_one]

/-- The numbers in flight, and the first one after them. -/
theorem Consecutive.split {numbers more : List Nat} {next : Nat}
    (consecutive : Consecutive (numbers ++ more) next) :
    ∃ first, 1 ≤ first ∧ numbers = List.range' first numbers.length ∧
      ∀ number rest, more = number :: rest → number = first + numbers.length := by
  obtain ⟨first, pos, isRange, _⟩ := consecutive
  obtain ⟨k, _, isLeft, isRight⟩ := List.range'_eq_append_iff.mp isRange.symm
  have isLength : numbers.length = k := by rw [isLeft, List.length_range']
  refine ⟨first, pos, by rw [isLength]; exact isLeft, fun number rest isMore => ?_⟩
  rw [isMore] at isRight
  have := (List.range'_eq_cons_iff.mp isRight.symm).1
  omega

theorem Consecutive.lt {numbers : List Nat} {next number : Nat}
    (consecutive : Consecutive numbers next) (mem : number ∈ numbers) : number < next := by
  obtain ⟨first, _, isRange, isNext⟩ := consecutive
  rw [isRange, List.mem_range'_1] at mem
  omega

@[simp] theorem unanswered_append (l l' : List (InFlight T)) :
    unanswered (l ++ l') = unanswered l ++ unanswered l' := by
  simp [unanswered]

@[simp] theorem unanswered_nil : unanswered ([] : List (InFlight T)) = [] := rfl

@[simp] theorem unanswered_sent (number : Nat) (item : T) (sent : Nat) :
    unanswered [(⟨number, some item, sent⟩ : InFlight T)] = [number] := rfl

theorem unanswered_sublist (l : List (InFlight T)) :
    (unanswered l).Sublist (l.map (·.number)) :=
  List.filter_sublist.map _

/-! ## Taking a reply -/

theorem dropAnswered_eq_drop (l : List (InFlight T)) :
    ∃ count ≤ l.length, dropAnswered l = l.drop count := by
  induction l with
  | nil => exact ⟨0, le_rfl, rfl⟩
  | cons sent rest ih =>
      unfold dropAnswered
      split
      · obtain ⟨count, le, same⟩ := ih
        exact ⟨count + 1, by simpa using le, by simpa using same⟩
      · exact ⟨0, Nat.zero_le _, rfl⟩

theorem dropAnswered_trimmed (l : List (InFlight T)) :
    ∀ oldest, (dropAnswered l).head? = some oldest → oldest.item.isSome := by
  induction l with
  | nil => simp [dropAnswered]
  | cons sent rest ih =>
      unfold dropAnswered
      split
      · exact ih
      · next unanswered =>
        intro oldest isOldest
        cases isOldest
        simpa [Option.isSome_iff_ne_none] using unanswered

@[simp] theorem unanswered_dropAnswered (l : List (InFlight T)) :
    unanswered (dropAnswered l) = unanswered l := by
  induction l with
  | nil => rfl
  | cons sent rest ih =>
      unfold dropAnswered
      split
      · next answered =>
        have none : sent.item = none := by simpa using answered
        rw [ih]
        simp [unanswered, none]
      · rfl

theorem dropAnswered_of_trimmed {l : List (InFlight T)}
    (trimmed : ∀ oldest, l.head? = some oldest → oldest.item.isSome) : dropAnswered l = l := by
  cases l with
  | nil => rfl
  | cons sent rest =>
      have isSome := trimmed sent rfl
      unfold dropAnswered
      rw [if_neg (by simpa [Option.isSome_iff_ne_none] using isSome)]

/-- Answering the item at `index` takes its number from those without a reply. -/
theorem unanswered_set {l : List (InFlight T)} {index : Nat} {sent : InFlight T}
    (nodup : (l.map (·.number)).Nodup) (found : l[index]? = some sent) :
    unanswered (l.set index { sent with item := none }) =
      (unanswered l).filter (· ≠ sent.number) := by
  induction l generalizing index with
  | nil => cases found
  | cons head rest ih =>
      rw [List.map_cons, List.nodup_cons] at nodup
      obtain ⟨fresh, nodup⟩ := nodup
      cases index with
      | zero =>
          obtain rfl : head = sent := by simpa using found
          have others : (unanswered rest).filter (· ≠ head.number) = unanswered rest := by
            refine List.filter_eq_self.mpr fun number mem => ?_
            have inside := (unanswered_sublist rest).subset mem
            simpa using fun same : number = head.number => fresh (same ▸ inside)
          have gone : unanswered (⟨head.number, none, head.sent⟩ :: rest) = unanswered rest := rfl
          rw [List.set_cons_zero, gone, ← others]
          cases answered : head.item <;> simp [unanswered, answered]
      | succ index =>
          have others : head.number ≠ sent.number := by
            intro same
            refine fresh (same ▸ ?_)
            exact List.mem_map_of_mem (List.mem_of_getElem? found)
          have := ih nodup found
          unfold unanswered at this ⊢
          by_cases answered : head.item.isSome
          · simp_all
          · simp_all

/-- What `answer` does to numbers that follow each other. -/
theorem answer_cases {l : List (InFlight T)} (number : Nat) {first : Nat}
    (isRange : l.map (·.number) = List.range' first l.length)
    (trimmed : ∀ oldest, l.head? = some oldest → oldest.item.isSome) :
    (number ∈ unanswered l ∧ (answer l number).2 = true ∧
      unanswered (answer l number).1 = (unanswered l).filter (· ≠ number) ∧
      (∃ count ≤ l.length, (answer l number).1.map (·.number) = (l.map (·.number)).drop count) ∧
      ∀ oldest, (answer l number).1.head? = some oldest → oldest.item.isSome) ∨
    answer l number = (l, false) := by
  cases shape : l with
  | nil => exact .inr rfl
  | cons oldest rest =>
      rw [← shape]
      have isFirst : oldest.number = first := by
        have := congrArg List.head? isRange
        rw [shape] at this
        simpa [List.range'_succ] using this
      have nodup : (l.map (·.number)).Nodup := isRange ▸ List.nodup_range'
      cases lookup : (checkedSub number oldest.number).bind fun index =>
          (l[index]?).map fun sent => (index, sent) with
      | none =>
          right
          have : answer l number = (dropAnswered l, false) := by
            unfold answer
            rw [shape] at lookup ⊢
            simp only [lookup]
          rw [this, dropAnswered_of_trimmed trimmed]
      | some found =>
          obtain ⟨index, sent⟩ := found
          obtain ⟨index', sub, found⟩ := Option.bind_eq_some_iff.mp lookup
          obtain ⟨sent', isSent, same⟩ := Option.map_eq_some_iff.mp found
          cases same
          obtain ⟨le, isIndex⟩ := checkedSub_eq_some.mp sub
          have isNumber : sent.number = number := by
            have at_ : (l.map (·.number))[index]? = some sent.number := by simp [isSent]
            obtain ⟨inside, _⟩ := List.getElem?_eq_some_iff.mp isSent
            rw [isRange, List.getElem?_range' inside] at at_
            simp only [Option.some.injEq] at at_
            omega
          have result : answer l number =
              (dropAnswered (l.set index { sent with item := none }), sent.item.isSome) := by
            unfold answer
            rw [shape] at lookup ⊢
            simp only [lookup]
          have sameNumbers : (l.set index { sent with item := none }).map (·.number) =
              l.map (·.number) := by
            rw [List.map_set]
            refine List.ext_getElem? fun other => ?_
            rw [List.getElem?_set]
            split
            · next isOther =>
              subst isOther
              obtain ⟨inside, _⟩ := List.getElem?_eq_some_iff.mp isSent
              rw [List.length_map, if_pos inside, List.getElem?_map, isSent]
              rfl
            · rfl
          cases answered : sent.item with
          | none =>
              right
              have unchanged : l.set index { sent with item := none } = l := by
                refine List.ext_getElem? fun other => ?_
                rw [List.getElem?_set]
                split
                · next isOther =>
                  subst isOther
                  obtain ⟨inside, _⟩ := List.getElem?_eq_some_iff.mp isSent
                  rw [if_pos inside, isSent, ← answered]
                · rfl
              rw [result, answered, unchanged, dropAnswered_of_trimmed trimmed]
              rfl
          | some item =>
              left
              rw [result]
              refine ⟨?_, by simp [answered], ?_, ?_, dropAnswered_trimmed _⟩
              · unfold unanswered
                refine List.mem_map.mpr ⟨sent, List.mem_filter.mpr ⟨List.mem_of_getElem? isSent, ?_⟩,
                  isNumber⟩
                simp [answered]
              · rw [unanswered_dropAnswered, unanswered_set nodup isSent, isNumber]
              · obtain ⟨count, le, same⟩ :=
                  dropAnswered_eq_drop (l.set index { sent with item := none })
                rw [List.length_set] at le
                exact ⟨count, le, by rw [same, List.map_drop, sameNumbers]⟩

/-! ## Noting what is sent -/

namespace Account

variable {a : Account Op Query}

/-- Nothing is noted for messages that carry no operation or one sent before. -/
theorem foldl_note_of_sent {sent posts : List (Ticket × Option Nat)}
    (all : ∀ post ∈ posts, post.1 ∈ sent.map Prod.fst) : posts.foldl note sent = sent := by
  induction posts with
  | nil => rfl
  | cons post rest ih =>
      have isNoted : note sent post = sent := if_pos (all post List.mem_cons_self)
      rw [List.foldl_cons, isNoted]
      exact ih fun other mem => all other (List.mem_cons_of_mem _ mem)

theorem posts_append {c : Client Op Query} {more : List (Nat × Outgoing Op Query)}
    (isOutbox : c.outbox = a.client.outbox ++ more) :
    a.posts c = more.filterMap fun message => message.2.post a.epoch := by
  unfold posts
  rw [isOutbox, List.drop_left]

/-- A call that sends no operation for the first time. -/
theorem became_quiet {client : Client Op Query}
    (all : ∀ post ∈ a.posts client, post.1 ∈ a.sent.map Prod.fst) :
    a.became client = { a with client := client } := by
  unfold became
  rw [foldl_note_of_sent all]

theorem became_same {c : Client Op Query} (isOutbox : c.outbox = a.client.outbox) :
    a.became c = { a with client := c } := by
  refine became_quiet fun post mem => ?_
  unfold posts at mem
  rw [isOutbox, List.drop_length] at mem
  cases mem

/-- Two calls note what both send. -/
theorem became_became {client client' : Client Op Query}
    (first : a.client.outbox <+: client.outbox) (second : client.outbox <+: client'.outbox) :
    (a.became client).became client' = a.became client' := by
  obtain ⟨more, isOutbox⟩ := first
  obtain ⟨rest, isOutbox'⟩ := second
  have all : client'.outbox = a.client.outbox ++ (more ++ rest) := by
    rw [← isOutbox', ← isOutbox, List.append_assoc]
  have posts : a.posts client' = a.posts client ++ (a.became client).posts client' := by
    rw [posts_append isOutbox.symm, posts_append all,
      posts_append (a := a.became client) (show client'.outbox = client.outbox ++ rest from
        isOutbox'.symm), List.filterMap_append]
    rfl
  unfold became at posts ⊢
  dsimp only at posts ⊢
  rw [posts, List.foldl_append]

end Account

/-! ## The invariant -/

/-- What holds of an account between two calls. -/
structure Account.Inv (a : Account Op Query) : Prop where
  oneKind : a.client.requests = [] ∨ a.client.queries = []
  requestNumbers : Consecutive
    (a.client.requests.map (·.number) ++ a.client.queued.filterMap Queued.requestNumber)
    a.client.nextRequestNumber
  queryNumbers : Consecutive
    (a.client.queries.map (·.number) ++ a.client.queued.filterMap Queued.queryNumber)
    a.client.nextQueryNumber
  requestsTrimmed : ∀ oldest, a.client.requests.head? = some oldest → oldest.item.isSome
  queriesTrimmed : ∀ oldest, a.client.queries.head? = some oldest → oldest.item.isSome
  requestsFew : a.client.requests.length ≤ a.client.config.inFlightMax
  queriesFew : a.client.queries.length ≤ a.client.config.inFlightMax
  nodup : a.issued.Nodup
  requestsIssued : ∀ epoch number, .request epoch number ∈ a.issued →
    epoch < a.epoch ∨ (epoch = a.epoch ∧ number < a.client.nextRequestNumber)
  queriesIssued : ∀ number, .query number ∈ a.issued → number < a.client.nextQueryNumber
  /-- What is neither completed nor failed is what the client has in flight without
  a reply, and then what it has queued. -/
  outstanding : (a.issued.filter fun t => decide (t ∉ a.settled)) = a.client.outstanding a.epoch
  /-- The queue is the end of what was issued, and nothing of it was sent. -/
  queue : ∃ earlier, a.issued = earlier ++ a.client.queued.map (Queued.ticket a.epoch) ∧
    (a.sent.map Prod.fst).Sublist earlier
  inSession : ∀ number ∈ unanswered a.client.requests, ∃ session,
    a.client.session = some session ∧ (.request a.epoch number, some session) ∈ a.sent
  asked : ∀ number ∈ unanswered a.client.queries, (.query number, none) ∈ a.sent
  afterOthers : ∀ t ∈ a.sent.map Prod.fst, ∀ u, IssuedBefore a.issued u t →
    u.isRequest ≠ t.isRequest → u ∈ a.settled
  registers : (∃ number op, .request number op ∈ a.client.queued) →
    a.client.session.isSome ∨ a.client.registering.isSome
  awaits : a.client.registering.isSome → a.client.session = none
  once : a.settled.Nodup
  settledIssued : ∀ t ∈ a.settled, t ∈ a.issued

/-- What waits in the queue waits for a reply or for a session. -/
def Client.Progress (c : Client Op Query) : Prop :=
  c.queued ≠ [] → c.requests ≠ [] ∨ c.queries ≠ [] ∨ c.registering.isSome

namespace Account

variable {a : Account Op Query}

theorem inv_new (clientId : Nat) (config : Config) :
    Inv (new clientId config : Account Op Query) where
  oneKind := .inl rfl
  requestNumbers := .nil le_rfl
  queryNumbers := .nil le_rfl
  requestsTrimmed _ isOldest := by cases isOldest
  queriesTrimmed _ isOldest := by cases isOldest
  requestsFew := Nat.zero_le _
  queriesFew := Nat.zero_le _
  nodup := List.nodup_nil
  requestsIssued _ _ mem := by cases mem
  queriesIssued _ mem := by cases mem
  outstanding := rfl
  queue := ⟨[], rfl, List.Sublist.refl _⟩
  inSession _ mem := by cases mem
  asked _ mem := by cases mem
  afterOthers _ mem := by cases mem
  registers := by rintro ⟨_, _, mem⟩; cases mem
  awaits _ := rfl
  once := List.nodup_nil
  settledIssued _ mem := by cases mem

end Account

/-- The same items in flight, sent again or not. -/
def SameFlight (l l' : List (InFlight T)) : Prop :=
  l.map (fun sent => (sent.number, sent.item)) = l'.map fun sent => (sent.number, sent.item)

namespace SameFlight

variable {l l' : List (InFlight T)}

theorem numbers (same : SameFlight l l') : l.map (·.number) = l'.map (·.number) := by
  simpa [SameFlight, Function.comp_def] using congrArg (List.map Prod.fst) same

theorem length (same : SameFlight l l') : l.length = l'.length := by
  simpa using congrArg List.length same

theorem unanswered (same : SameFlight l l') : unanswered l = unanswered l' := by
  have := congrArg (fun items => (items.filter (·.2.isSome)).map Prod.fst) same
  simpa [SameFlight, Vsr.unanswered, List.filter_map, Function.comp_def] using this

theorem trimmed (same : SameFlight l l')
    (before : ∀ oldest, l'.head? = some oldest → oldest.item.isSome) :
    ∀ oldest, l.head? = some oldest → oldest.item.isSome := by
  intro oldest isOldest
  have := congrArg List.head? same
  rw [List.head?_map, List.head?_map, isOldest] at this
  obtain ⟨other, isOther, isSame⟩ := Option.map_eq_some_iff.mp this.symm
  rw [← (Prod.mk.inj isSame).2]
  exact before other isOther

theorem eq_nil (same : SameFlight l l') : l = [] ↔ l' = [] := by
  rw [← List.length_eq_zero_iff, ← List.length_eq_zero_iff, same.length]

end SameFlight

namespace Account

variable {a : Account Op Query}

/-- The timers, the outbox and the view a client sends to have no part in it. -/
theorem Inv.congr {c : Client Op Query} (inv : Inv a)
    (config : c.config = a.client.config) (session : c.session = a.client.session)
    (registering : a.client.registering.isSome → c.registering.isSome)
    (awaits : c.registering.isSome → c.session = none)
    (nextRequest : c.nextRequestNumber = a.client.nextRequestNumber)
    (nextQuery : c.nextQueryNumber = a.client.nextQueryNumber)
    (requests : SameFlight c.requests a.client.requests)
    (queries : SameFlight c.queries a.client.queries)
    (queued : c.queued = a.client.queued) : Inv { a with client := c } where
  oneKind := by
    rw [requests.eq_nil, queries.eq_nil]
    exact inv.oneKind
  requestNumbers := by
    rw [requests.numbers, queued, nextRequest]
    exact inv.requestNumbers
  queryNumbers := by
    rw [queries.numbers, queued, nextQuery]
    exact inv.queryNumbers
  requestsTrimmed := requests.trimmed inv.requestsTrimmed
  queriesTrimmed := queries.trimmed inv.queriesTrimmed
  requestsFew := by
    rw [requests.length, config]
    exact inv.requestsFew
  queriesFew := by
    rw [queries.length, config]
    exact inv.queriesFew
  nodup := inv.nodup
  requestsIssued := by
    rw [nextRequest]
    exact inv.requestsIssued
  queriesIssued := by
    rw [nextQuery]
    exact inv.queriesIssued
  outstanding := by
    refine inv.outstanding.trans ?_
    unfold Client.outstanding
    rw [requests.unanswered, queries.unanswered, queued]
  queue := by
    rw [queued]
    exact inv.queue
  inSession := by
    rw [requests.unanswered, session]
    exact inv.inSession
  asked := by
    rw [queries.unanswered]
    exact inv.asked
  afterOthers := inv.afterOthers
  registers := by
    rw [queued, session]
    exact fun isQueued => (inv.registers isQueued).imp_right registering
  awaits := awaits
  once := inv.once
  settledIssued := inv.settledIssued

/-! ## Issuing and sending -/

theorem filter_unsettled_snoc {issued : List Ticket} (settled : List Ticket) {t : Ticket}
    (fresh : t ∉ settled) :
    ((issued ++ [t]).filter fun t => decide (t ∉ settled)) =
      (issued.filter fun t => decide (t ∉ settled)) ++ [t] := by
  simp [List.filter_append, fresh]

/-- An operation issued goes to the end of the queue. -/
theorem Inv.enqueue (inv : Inv a) {client : Client Op Query} (operation : Queued Op Query)
    (isQueued : client.queued = a.client.queued ++ [operation])
    (config : client.config = a.client.config) (session : client.session = a.client.session)
    (requests : client.requests = a.client.requests) (queries : client.queries = a.client.queries)
    (requestNumbers : Consecutive (client.requests.map (·.number) ++
      client.queued.filterMap Queued.requestNumber) client.nextRequestNumber)
    (queryNumbers : Consecutive (client.queries.map (·.number) ++
      client.queued.filterMap Queued.queryNumber) client.nextQueryNumber)
    (fresh : operation.ticket a.epoch ∉ a.issued)
    (requestsIssued : ∀ epoch number, .request epoch number ∈ a.issued ++ [operation.ticket a.epoch] →
      epoch < a.epoch ∨ (epoch = a.epoch ∧ number < client.nextRequestNumber))
    (queriesIssued : ∀ number, .query number ∈ a.issued ++ [operation.ticket a.epoch] →
      number < client.nextQueryNumber)
    (registers : (∃ number op, .request number op ∈ client.queued) →
      client.session.isSome ∨ client.registering.isSome)
    (awaits : client.registering.isSome → client.session = none) :
    Inv { a.issue (operation.ticket a.epoch) with client := client } where
  oneKind := by
    rw [requests, queries]
    exact inv.oneKind
  requestNumbers := requestNumbers
  queryNumbers := queryNumbers
  requestsTrimmed := by
    rw [requests]
    exact inv.requestsTrimmed
  queriesTrimmed := by
    rw [queries]
    exact inv.queriesTrimmed
  requestsFew := by
    rw [requests, config]
    exact inv.requestsFew
  queriesFew := by
    rw [queries, config]
    exact inv.queriesFew
  nodup := by
    refine List.nodup_append.mpr ⟨inv.nodup, List.nodup_singleton _, ?_⟩
    rintro t mem u isU rfl
    exact fresh (List.mem_singleton.mp isU ▸ mem)
  requestsIssued := requestsIssued
  queriesIssued := queriesIssued
  outstanding := by
    refine (filter_unsettled_snoc a.settled fun mem =>
      fresh (inv.settledIssued _ mem)).trans ?_
    rw [inv.outstanding]
    unfold Client.outstanding
    rw [requests, queries, isQueued, List.map_append, ← List.append_assoc]
    rfl
  queue := by
    obtain ⟨earlier, isIssued, sent⟩ := inv.queue
    refine ⟨earlier, ?_, sent⟩
    show a.issued ++ [operation.ticket a.epoch] = _
    rw [isQueued, isIssued, List.map_append, List.append_assoc]
    rfl
  inSession := by
    rw [requests, session]
    exact inv.inSession
  asked := by
    rw [queries]
    exact inv.asked
  afterOthers := by
    intro t isSent u before
    refine inv.afterOthers t isSent u ?_
    obtain ⟨earlier, later, isIssued, mem⟩ := before
    replace isIssued : a.issued ++ [operation.ticket a.epoch] = earlier ++ t :: later := isIssued
    obtain ⟨_, isEarlier, sent⟩ := inv.queue
    have known : t ∈ a.issued := by
      rw [isEarlier]
      exact List.mem_append_left _ (sent.subset isSent)
    rcases List.eq_nil_or_concat later with rfl | ⟨rest, last, rfl⟩
    · obtain ⟨_, isLast⟩ := List.append_inj' isIssued rfl
      cases isLast
      exact absurd known fresh
    · rw [List.concat_eq_append, ← List.cons_append, ← List.append_assoc] at isIssued
      obtain ⟨isBefore, _⟩ := List.append_inj' isIssued rfl
      exact ⟨earlier, rest, isBefore, mem⟩
  registers := registers
  awaits := awaits
  once := inv.once
  settledIssued t mem := List.mem_append_left _ (inv.settledIssued t mem)

/-- What was issued before the queue and is not settled is in flight. -/
theorem Inv.flight (inv : Inv a) :
    ∃ earlier, a.issued = earlier ++ a.client.queued.map (Queued.ticket a.epoch) ∧
      (a.sent.map Prod.fst).Sublist earlier ∧
      (earlier.filter fun t => decide (t ∉ a.settled)) =
        (unanswered a.client.requests).map (Ticket.request a.epoch) ++
          (unanswered a.client.queries).map Ticket.query := by
  obtain ⟨earlier, isIssued, sent⟩ := inv.queue
  refine ⟨earlier, isIssued, sent, ?_⟩
  have unsettled : ((a.client.queued.map (Queued.ticket a.epoch)).filter
      fun t => decide (t ∉ a.settled)) = a.client.queued.map (Queued.ticket a.epoch) := by
    refine List.filter_eq_self.mpr fun t mem => ?_
    have : t ∈ a.client.outstanding a.epoch := List.mem_append_right _ mem
    rw [← inv.outstanding] at this
    exact (List.mem_filter.mp this).2
  have all := inv.outstanding
  rw [isIssued, List.filter_append, unsettled] at all
  exact List.append_cancel_right all

/-- The first of the queue was not sent. -/
theorem Inv.unsent (inv : Inv a) {operation : Queued Op Query} {rest : List (Queued Op Query)}
    (isQueued : a.client.queued = operation :: rest) :
    operation.ticket a.epoch ∉ a.sent.map Prod.fst := by
  intro isSent
  obtain ⟨earlier, isIssued, sent⟩ := inv.queue
  have nodup := inv.nodup
  rw [isIssued, isQueued, List.map_cons] at nodup
  exact (List.nodup_append.mp nodup).2.2 _ (sent.subset isSent) _ List.mem_cons_self rfl

/-- What was issued before the first of the queue is settled or in flight. -/
theorem Inv.before_first (inv : Inv a) {operation : Queued Op Query}
    {rest : List (Queued Op Query)} (isQueued : a.client.queued = operation :: rest) {u : Ticket}
    (before : IssuedBefore a.issued u (operation.ticket a.epoch)) :
    u ∈ a.settled ∨ u ∈ (unanswered a.client.requests).map (Ticket.request a.epoch) ∨
      u ∈ (unanswered a.client.queries).map Ticket.query := by
  obtain ⟨earlier, isIssued, _, isFlight⟩ := inv.flight
  obtain ⟨earlier', later, isIssued', mem⟩ := before
  have nodup := inv.nodup
  rw [isQueued, List.map_cons] at isIssued
  have isEarlier : earlier' = earlier := by
    rw [isIssued] at nodup isIssued'
    obtain ⟨_, nodupRest, apart⟩ := List.nodup_append.mp nodup
    have fresh : operation.ticket a.epoch ∉ earlier := fun inside =>
      apart _ inside _ List.mem_cons_self rfl
    exact ((List.append_cons_inj_of_notMem fresh (List.nodup_cons.mp nodupRest).1).mp
      isIssued').1.symm
  by_cases isSettled : u ∈ a.settled
  · exact .inl isSettled
  · right
    rw [isEarlier] at mem
    have : u ∈ earlier.filter fun t => decide (t ∉ a.settled) :=
      List.mem_filter.mpr ⟨mem, by simpa using isSettled⟩
    rw [isFlight] at this
    exact List.mem_append.mp this

/-- The first of the queue is sent. -/
theorem Inv.sendFirst (inv : Inv a) {operation : Queued Op Query} {rest : List (Queued Op Query)}
    (isQueued : a.client.queued = operation :: rest) {client : Client Op Query}
    {receiver : Nat} {message : Outgoing Op Query} (session : Option Nat)
    (outbox : client.outbox = a.client.outbox ++ [(receiver, message)])
    (isPost : message.post a.epoch = some (operation.ticket a.epoch, session))
    (queued : client.queued = rest) (config : client.config = a.client.config)
    (sameSession : client.session = a.client.session)
    (registering : client.registering = a.client.registering)
    (nextRequest : client.nextRequestNumber = a.client.nextRequestNumber)
    (nextQuery : client.nextQueryNumber = a.client.nextQueryNumber)
    (oneKind : client.requests = [] ∨ client.queries = [])
    (requestNumbers : client.requests.map (·.number) ++ rest.filterMap Queued.requestNumber =
      a.client.requests.map (·.number) ++ a.client.queued.filterMap Queued.requestNumber)
    (queryNumbers : client.queries.map (·.number) ++ rest.filterMap Queued.queryNumber =
      a.client.queries.map (·.number) ++ a.client.queued.filterMap Queued.queryNumber)
    (requestsTrimmed : ∀ oldest, client.requests.head? = some oldest → oldest.item.isSome)
    (queriesTrimmed : ∀ oldest, client.queries.head? = some oldest → oldest.item.isSome)
    (requestsFew : client.requests.length ≤ a.client.config.inFlightMax)
    (queriesFew : client.queries.length ≤ a.client.config.inFlightMax)
    (outstanding : client.outstanding a.epoch = a.client.outstanding a.epoch)
    (inSession : ∀ number ∈ unanswered client.requests, number ∈ unanswered a.client.requests ∨
      ∃ s, a.client.session = some s ∧ operation.ticket a.epoch = .request a.epoch number ∧
        session = some s)
    (asked : ∀ number ∈ unanswered client.queries, number ∈ unanswered a.client.queries ∨
      (operation.ticket a.epoch = .query number ∧ session = none))
    (sameKind : ∀ u, (u ∈ (unanswered a.client.requests).map (Ticket.request a.epoch) ∨
      u ∈ (unanswered a.client.queries).map Ticket.query) →
      u.isRequest = (operation.ticket a.epoch).isRequest) :
    Inv (a.became client) := by
  have isSent : a.became client = { a with
      client := client, sent := a.sent ++ [(operation.ticket a.epoch, session)] } := by
    unfold became
    rw [posts_append outbox, List.filterMap_cons, isPost, List.filterMap_nil]
    simp only [List.foldl_cons, List.foldl_nil, note, if_neg (inv.unsent isQueued)]
  rw [isSent]
  exact
    { oneKind := oneKind
      requestNumbers := by
        rw [queued, nextRequest, requestNumbers]
        exact inv.requestNumbers
      queryNumbers := by
        rw [queued, nextQuery, queryNumbers]
        exact inv.queryNumbers
      requestsTrimmed := requestsTrimmed
      queriesTrimmed := queriesTrimmed
      requestsFew := by
        rw [config]
        exact requestsFew
      queriesFew := by
        rw [config]
        exact queriesFew
      nodup := inv.nodup
      requestsIssued := by
        rw [nextRequest]
        exact inv.requestsIssued
      queriesIssued := by
        rw [nextQuery]
        exact inv.queriesIssued
      outstanding := inv.outstanding.trans outstanding.symm
      queue := by
        obtain ⟨earlier, isIssued, sent⟩ := inv.queue
        rw [isQueued, List.map_cons] at isIssued
        refine ⟨earlier ++ [operation.ticket a.epoch], ?_, ?_⟩
        · rw [queued, List.append_assoc]
          exact isIssued
        · rw [List.map_append]
          exact sent.append (List.Sublist.refl _)
      inSession := by
        intro number mem
        rw [sameSession]
        rcases inSession number mem with before | ⟨s, isSession, isTicket, rfl⟩
        · obtain ⟨s, isSession, mem⟩ := inv.inSession number before
          exact ⟨s, isSession, List.mem_append_left _ mem⟩
        · exact ⟨s, isSession, List.mem_append_right _ (by simp [isTicket])⟩
      asked := by
        intro number mem
        rcases asked number mem with before | ⟨isTicket, rfl⟩
        · exact List.mem_append_left _ (inv.asked number before)
        · exact List.mem_append_right _ (by simp [isTicket])
      afterOthers := by
        intro t isSent u before otherKind
        rw [List.map_append, List.mem_append] at isSent
        rcases isSent with earlier | isLast
        · exact inv.afterOthers t earlier u before otherKind
        · obtain rfl : t = operation.ticket a.epoch := by simpa using isLast
          rcases inv.before_first isQueued before with isSettled | inFlight
          · exact isSettled
          · exact absurd (sameKind u inFlight) otherKind
      registers := by
        rintro ⟨number, op, mem⟩
        rw [queued] at mem
        rw [sameSession, registering]
        exact inv.registers ⟨number, op, by rw [isQueued]; exact List.mem_cons_of_mem _ mem⟩
      awaits := by
        rw [registering, sameSession]
        exact inv.awaits
      once := inv.once
      settledIssued := inv.settledIssued }

/-- The number after those in flight is within the window if it may go. -/
theorem few_of_mayGo {inFlight : List (InFlight T)} {number max next : Nat} {more : List Nat}
    (consecutive : Consecutive (inFlight.map (·.number) ++ number :: more) next) (pos : 1 ≤ max)
    (mayGo : number < Client.oldestNumber inFlight number + max) : inFlight.length + 1 ≤ max := by
  cases inFlight with
  | nil => simpa using pos
  | cons oldest rest =>
      obtain ⟨first, _, isRange, isNumber⟩ := consecutive.split
      have isFirst : oldest.number = first := by
        rw [List.map_cons, List.length_cons, List.range'_succ] at isRange
        exact (List.cons.inj isRange).1
      have := isNumber number more rfl
      rw [List.length_map, List.length_cons] at this
      rw [List.length_cons]
      simp only [Client.oldestNumber, List.head?_cons] at mayGo
      omega

theorem Inv.sendRequest (inv : Inv a) {number session : Nat} {op : Op}
    {rest : List (Queued Op Query)} (isQueued : a.client.queued = .request number op :: rest)
    (isSession : a.client.session = some session) (mayGo : a.client.requestMayGo number = true) :
    Inv (a.became ({ a.client with queued := rest }.sendRequest session number op)) := by
  simp only [Client.requestMayGo, Bool.and_eq_true, List.isEmpty_iff, decide_eq_true_eq] at mayGo
  obtain ⟨noQueries, inWindow⟩ := mayGo
  have numbers := inv.requestNumbers
  rw [isQueued, List.filterMap_cons] at numbers
  refine inv.sendFirst isQueued (some session) rfl rfl rfl rfl rfl rfl rfl rfl
    (.inr noQueries) ?_ ?_ ?_ inv.queriesTrimmed ?_ inv.queriesFew ?_ ?_ (fun n mem => .inl mem) ?_
  · rw [isQueued]
    simp [Client.sendRequest, Client.toPrimary, Queued.requestNumber]
  · rw [isQueued]
    rfl
  · intro oldest isOldest
    simp only [Client.sendRequest, Client.toPrimary] at isOldest
    cases shape : a.client.requests with
    | nil =>
        rw [shape] at isOldest
        cases isOldest
        rfl
    | cons head others =>
        rw [shape] at isOldest
        exact inv.requestsTrimmed oldest (by rw [shape]; exact isOldest)
  · simp only [Client.sendRequest, Client.toPrimary, List.length_append, List.length_singleton]
    exact few_of_mayGo numbers a.client.config.inFlightMax_pos inWindow
  · unfold Client.outstanding
    rw [isQueued]
    simp [Client.sendRequest, Client.toPrimary, Queued.ticket, noQueries]
  · intro n mem
    simp only [Client.sendRequest, Client.toPrimary, unanswered_append, unanswered_sent,
      List.mem_append, List.mem_singleton] at mem
    exact mem.imp id fun isNumber => ⟨session, isSession, by rw [isNumber]; rfl, rfl⟩
  · rintro u (inFlight | inFlight)
    · obtain ⟨_, _, rfl⟩ := List.mem_map.mp inFlight
      rfl
    · rw [noQueries] at inFlight
      cases inFlight

theorem Inv.sendQuery (inv : Inv a) {number : Nat} {query : Query}
    {rest : List (Queued Op Query)} (isQueued : a.client.queued = .query number query :: rest)
    (mayGo : a.client.queryMayGo number = true) :
    Inv (a.became ({ a.client with queued := rest }.sendQuery number query)) := by
  simp only [Client.queryMayGo, Bool.and_eq_true, List.isEmpty_iff, decide_eq_true_eq] at mayGo
  obtain ⟨noRequests, inWindow⟩ := mayGo
  have numbers := inv.queryNumbers
  rw [isQueued, List.filterMap_cons] at numbers
  refine inv.sendFirst isQueued none rfl rfl rfl rfl rfl rfl rfl rfl
    (.inl noRequests) ?_ ?_ inv.requestsTrimmed ?_ inv.requestsFew ?_ ?_ (fun n mem => .inl mem) ?_ ?_
  · rw [isQueued]
    rfl
  · rw [isQueued]
    simp [Client.sendQuery, Client.toPrimary, Queued.queryNumber]
  · intro oldest isOldest
    simp only [Client.sendQuery, Client.toPrimary] at isOldest
    cases shape : a.client.queries with
    | nil =>
        rw [shape] at isOldest
        cases isOldest
        rfl
    | cons head others =>
        rw [shape] at isOldest
        exact inv.queriesTrimmed oldest (by rw [shape]; exact isOldest)
  · simp only [Client.sendQuery, Client.toPrimary, List.length_append, List.length_singleton]
    exact few_of_mayGo numbers a.client.config.inFlightMax_pos inWindow
  · unfold Client.outstanding
    rw [isQueued]
    simp [Client.sendQuery, Client.toPrimary, Queued.ticket, noRequests]
  · intro n mem
    simp only [Client.sendQuery, Client.toPrimary, unanswered_append, unanswered_sent,
      List.mem_append, List.mem_singleton] at mem
    exact mem.imp id fun isNumber => ⟨by rw [isNumber]; rfl, rfl⟩
  · rintro u (inFlight | inFlight)
    · rw [noRequests] at inFlight
      cases inFlight
    · obtain ⟨_, _, rfl⟩ := List.mem_map.mp inFlight
      rfl

end Account

/-! ## Sending what may go -/

namespace Client

theorem sendFrom_queued (c : Client Op Query) (queued queue : List (Queued Op Query)) :
    { c with queued := queued }.sendFrom queue = c.sendFrom queue := by
  induction queue generalizing c with
  | nil => rfl
  | cons operation rest ih =>
      cases operation with
      | request number op =>
          have mayGo : { c with queued := queued }.requestMayGo number = c.requestMayGo number := rfl
          simp only [sendFrom, mayGo]
          split
          · next session _ =>
            split
            · exact ih (c.sendRequest session number op)
            · rfl
          · rfl
      | query number query =>
          have mayGo : { c with queued := queued }.queryMayGo number = c.queryMayGo number := rfl
          simp only [sendFrom, mayGo]
          split
          · exact ih (c.sendQuery number query)
          · rfl

theorem sendFrom_outbox (c : Client Op Query) (queue : List (Queued Op Query)) :
    c.outbox <+: (c.sendFrom queue).outbox := by
  induction queue generalizing c with
  | nil => exact List.prefix_rfl
  | cons operation rest ih =>
      cases operation with
      | request number op =>
          simp only [sendFrom]
          split
          · next session _ =>
            split
            · exact (List.prefix_append _ _).trans (ih (c.sendRequest session number op))
            · exact List.prefix_rfl
          · exact List.prefix_rfl
      | query number query =>
          simp only [sendFrom]
          split
          · exact (List.prefix_append _ _).trans (ih (c.sendQuery number query))
          · exact List.prefix_rfl

/-- A request that may not go waits for a reply. -/
theorem inFlight_of_not_requestMayGo {c : Client Op Query} {number : Nat}
    (stays : ¬c.requestMayGo number = true) : c.requests ≠ [] ∨ c.queries ≠ [] := by
  by_contra none
  obtain ⟨noRequests, noQueries⟩ := not_or.mp none
  have pos := c.config.inFlightMax_pos
  simp_all [requestMayGo, oldestNumber]

theorem inFlight_of_not_queryMayGo {c : Client Op Query} {number : Nat}
    (stays : ¬c.queryMayGo number = true) : c.requests ≠ [] ∨ c.queries ≠ [] := by
  by_contra none
  obtain ⟨noRequests, noQueries⟩ := not_or.mp none
  have pos := c.config.inFlightMax_pos
  simp_all [queryMayGo, oldestNumber]

end Client

namespace Account

variable {a : Account Op Query}

theorem Inv.sendFrom {queue : List (Queued Op Query)} (inv : Inv a)
    (isQueued : a.client.queued = queue) :
    Inv (a.became (a.client.sendFrom queue)) ∧ (a.client.sendFrom queue).Progress := by
  induction queue generalizing a with
  | nil =>
      have same : a.client.sendFrom [] = a.client := by
        unfold Client.sendFrom
        rw [← isQueued]
      rw [same, became_same rfl]
      exact ⟨inv, fun queued => absurd isQueued queued⟩
  | cons operation rest ih =>
      -- Nothing goes: the queue stays as it is.
      have stays : Inv (a.became { a.client with queued := operation :: rest }) := by
        rw [← isQueued, became_same rfl]
        exact inv
      -- The first goes, and the rest after it.
      have goes : ∀ {sends : Client Op Query}, a.client.outbox <+: sends.outbox →
          Inv (a.became { sends with queued := rest }) →
          Inv (a.became (sends.sendFrom rest)) ∧ (sends.sendFrom rest).Progress := by
        intro sends longer sent
        have next := ih sent rfl
        rw [show (a.became { sends with queued := rest }).client = { sends with queued := rest } from
          rfl, Client.sendFrom_queued] at next
        have both : (a.became { sends with queued := rest }).became (sends.sendFrom rest) =
            a.became (sends.sendFrom rest) :=
          became_became longer (Client.sendFrom_outbox sends rest)
        rw [both] at next
        exact next
      cases operation with
      | request number op =>
          simp only [Client.sendFrom]
          split
          · next session isSession =>
            split
            · next mayGo =>
              exact goes (List.prefix_append _ _) (inv.sendRequest isQueued isSession mayGo)
            · next mayNotGo =>
              refine ⟨stays, fun _ => ?_⟩
              rcases Client.inFlight_of_not_requestMayGo mayNotGo with some | some
              · exact .inl some
              · exact .inr (.inl some)
          · next noSession =>
            refine ⟨stays, fun _ => .inr (.inr ?_)⟩
            have registers := inv.registers ⟨number, op, by rw [isQueued]; exact List.mem_cons_self⟩
            simpa [noSession] using registers
      | query number query =>
          simp only [Client.sendFrom]
          split
          · next mayGo => exact goes (List.prefix_append _ _) (inv.sendQuery isQueued mayGo)
          · next mayNotGo =>
            refine ⟨stays, fun _ => ?_⟩
            rcases Client.inFlight_of_not_queryMayGo mayNotGo with some | some
            · exact .inl some
            · exact .inr (.inl some)

end Account

end Vsr
