import Vsr.Client.Order

/-!
# The calls of a client's owner

Each call keeps the invariant of an account, and what its replies complete is what
was in flight.
-/

set_option autoImplicit false

namespace Vsr

variable {Op Query Output T : Type}

namespace Account

variable {a : Account Op Query}

/-! ## Asking for a session -/

theorem register_same (c : Client Op Query) :
    c.register.requests = c.requests ∧ c.register.queries = c.queries ∧
      c.register.queued = c.queued ∧ c.register.session = c.session ∧
      c.register.config = c.config ∧ c.register.nextRequestNumber = c.nextRequestNumber ∧
      c.register.nextQueryNumber = c.nextQueryNumber ∧
      (c.registering.isSome → c.register.registering.isSome) ∧
      (c.register.session.isSome ∨ c.register.registering.isSome) ∧
      ((c.registering.isSome → c.session = none) → c.register.registering.isSome →
        c.register.session = none) ∧
      ∃ more, c.register.outbox = c.outbox ++ more ∧ ∀ message ∈ more, message.2 = .register := by
  unfold Client.register
  split
  · next lacks =>
    refine ⟨rfl, rfl, rfl, rfl, rfl, rfl, rfl, fun _ => rfl, .inr rfl,
      fun _ _ => Option.isNone_iff_eq_none.mp lacks.1, _, rfl, ?_⟩
    simp
  · next has =>
    refine ⟨rfl, rfl, rfl, rfl, rfl, rfl, rfl, id, ?_, id, [], by simp, by simp⟩
    rw [Option.isNone_iff_eq_none, Option.isNone_iff_eq_none] at has
    rw [Option.isSome_iff_ne_none, Option.isSome_iff_ne_none]
    tauto

theorem became_register {c : Client Op Query} (isOutbox : c.outbox = a.client.outbox) :
    a.became c.register = { a with client := c.register } := by
  obtain ⟨_, _, _, _, _, _, _, _, _, _, more, isMore, registers⟩ := register_same c
  refine became_quiet fun post mem => ?_
  rw [posts_append (isOutbox ▸ isMore)] at mem
  obtain ⟨message, isMessage, isPost⟩ := List.mem_filterMap.mp mem
  rw [registers message isMessage] at isPost
  cases isPost

theorem Inv.register (inv : Inv a) : Inv (a.became a.client.register) := by
  obtain ⟨requests, queries, queued, session, config, nextRequest, nextQuery, more, _, awaits, _⟩ :=
    register_same a.client
  rw [became_register rfl]
  exact inv.congr config session more (awaits inv.awaits) nextRequest nextQuery (congrArg _ requests)
    (congrArg _ queries) queued

end Account

/-! ## Issuing an operation -/

namespace Client

/-- The client with a request at the end of its queue. -/
def withRequest (c : Client Op Query) (op : Op) : Client Op Query :=
  { c with
    nextRequestNumber := c.nextRequestNumber + 1
    queued := c.queued ++ [.request c.nextRequestNumber op] }

def withQuery (c : Client Op Query) (query : Query) : Client Op Query :=
  { c with
    nextQueryNumber := c.nextQueryNumber + 1
    queued := c.queued ++ [.query c.nextQueryNumber query] }

/-- A request goes at once, from a queue it is alone in, or stays queued. -/
theorem onRequest_cases (c : Client Op Query) (op : Op) :
    (∃ session, c.session = some session ∧ c.queued = [] ∧
      c.requestMayGo c.nextRequestNumber = true ∧
      (c.onRequest op).1 =
        { c.withRequest op with queued := [] }.sendRequest session c.nextRequestNumber op) ∨
    ((c.session.isSome → c.queued ≠ [] ∨ ¬c.requestMayGo c.nextRequestNumber = true) ∧
      (c.onRequest op).1 = (c.withRequest op).register) := by
  simp only [onRequest]
  split
  · next session isSession =>
    split
    · next goes =>
      simp only [Bool.and_eq_true, List.isEmpty_iff] at goes
      refine .inl ⟨session, isSession, goes.1, goes.2, ?_⟩
      show _ = sendRequest { c with
        nextRequestNumber := c.nextRequestNumber + 1, queued := [] } session c.nextRequestNumber op
      rw [← goes.1]
    · next stays =>
      simp only [Bool.and_eq_true, List.isEmpty_iff] at stays
      exact .inr ⟨fun _ => not_and_or.mp stays, rfl⟩
  · next noSession =>
    refine .inr ⟨fun isSome => ?_, rfl⟩
    replace noSession : c.session = none := noSession
    rw [noSession] at isSome
    cases isSome

theorem onQuery_cases (c : Client Op Query) (query : Query) :
    (c.queued = [] ∧ c.queryMayGo c.nextQueryNumber = true ∧
      (c.onQuery query).1 =
        { c.withQuery query with queued := [] }.sendQuery c.nextQueryNumber query) ∨
    ((c.queued ≠ [] ∨ ¬c.queryMayGo c.nextQueryNumber = true) ∧
      (c.onQuery query).1 = c.withQuery query) := by
  simp only [onQuery]
  split
  · next goes =>
    simp only [Bool.and_eq_true, List.isEmpty_iff] at goes
    refine .inl ⟨goes.1, goes.2, ?_⟩
    show _ = sendQuery { c with nextQueryNumber := c.nextQueryNumber + 1, queued := [] }
      c.nextQueryNumber query
    rw [← goes.1]
  · next stays =>
    simp only [Bool.and_eq_true, List.isEmpty_iff] at stays
    exact .inr ⟨not_and_or.mp stays, rfl⟩

/-- What must wait behind the queue, or may not go, waits for something. -/
theorem Progress.waits {c : Client Op Query} (progress : c.Progress)
    (stays : c.queued ≠ [] ∨ c.requests ≠ [] ∨ c.queries ≠ []) :
    c.requests ≠ [] ∨ c.queries ≠ [] ∨ c.registering.isSome := by
  rcases stays with isQueued | some | some
  · exact progress isQueued
  · exact .inl some
  · exact .inr (.inl some)

end Client

namespace Account

variable {a : Account Op Query}

/-- The account with a request at the end of the queue. -/
theorem Inv.withRequest (inv : Inv a) (client : Client Op Query) (op : Op)
    (queued : client.queued = (a.client.withRequest op).queued)
    (config : client.config = a.client.config) (session : client.session = a.client.session)
    (requests : client.requests = a.client.requests) (queries : client.queries = a.client.queries)
    (nextRequest : client.nextRequestNumber = a.client.nextRequestNumber + 1)
    (nextQuery : client.nextQueryNumber = a.client.nextQueryNumber)
    (registers : client.session.isSome ∨ client.registering.isSome)
    (awaits : client.registering.isSome → client.session = none) :
    Inv { a.issue (.request a.epoch a.client.nextRequestNumber) with client := client } := by
  have fresh : Ticket.request a.epoch a.client.nextRequestNumber ∉ a.issued := by
    intro mem
    rcases inv.requestsIssued _ _ mem with earlier | ⟨_, earlier⟩ <;> omega
  replace queued : client.queued =
    a.client.queued ++ [.request a.client.nextRequestNumber op] := queued
  refine inv.enqueue (.request a.client.nextRequestNumber op) queued config session
    requests queries ?_ ?_ fresh ?_ ?_ (fun _ => registers) awaits
  · rw [requests, queued, nextRequest, List.filterMap_append, ← List.append_assoc]
    exact inv.requestNumbers.snoc
  · have none : [(Queued.request a.client.nextRequestNumber op : Queued Op Query)].filterMap
        Queued.queryNumber = [] := rfl
    rw [queries, queued, nextQuery, List.filterMap_append, none, List.append_nil]
    exact inv.queryNumbers
  · intro epoch number mem
    rw [nextRequest]
    rcases List.mem_append.mp mem with before | isNew
    · rcases inv.requestsIssued _ _ before with earlier | ⟨same, earlier⟩
      · exact .inl earlier
      · exact .inr ⟨same, by omega⟩
    · cases List.mem_singleton.mp isNew
      exact .inr ⟨rfl, Nat.lt_succ_self _⟩
  · intro number mem
    rw [nextQuery]
    rcases List.mem_append.mp mem with before | isNew
    · exact inv.queriesIssued _ before
    · cases List.mem_singleton.mp isNew

theorem Inv.withQuery (inv : Inv a) (query : Query) :
    Inv { a.issue (.query a.client.nextQueryNumber) with client := a.client.withQuery query } := by
  have fresh : Ticket.query a.client.nextQueryNumber ∉ a.issued := fun mem =>
    absurd (inv.queriesIssued _ mem) (Nat.lt_irrefl _)
  refine inv.enqueue (.query a.client.nextQueryNumber query) rfl rfl rfl rfl rfl ?_ ?_
    fresh ?_ ?_ ?_ inv.awaits
  · have none : [(Queued.query a.client.nextQueryNumber query : Queued Op Query)].filterMap
        Queued.requestNumber = [] := rfl
    rw [Client.withQuery, List.filterMap_append, none, List.append_nil]
    exact inv.requestNumbers
  · rw [Client.withQuery, List.filterMap_append, ← List.append_assoc]
    exact inv.queryNumbers.snoc
  · intro epoch number mem
    rcases List.mem_append.mp mem with before | isNew
    · exact inv.requestsIssued _ _ before
    · cases List.mem_singleton.mp isNew
  · intro number mem
    rcases List.mem_append.mp mem with before | isNew
    · exact (inv.queriesIssued _ before).trans (Nat.lt_succ_self _)
    · cases List.mem_singleton.mp isNew
      exact Nat.lt_succ_self _
  · rintro ⟨number, op, mem⟩
    refine inv.registers ⟨number, op, ?_⟩
    rcases List.mem_append.mp mem with before | isNew
    · exact before
    · cases List.mem_singleton.mp isNew

theorem Inv.onRequest (inv : Inv a) (progress : a.client.Progress) (op : Op) :
    Inv ((a.issue (.request a.epoch a.client.nextRequestNumber)).became (a.client.onRequest op).1) ∧
      (a.client.onRequest op).1.Progress := by
  rcases a.client.onRequest_cases op with ⟨session, isSession, isEmpty, mayGo, isClient⟩ |
    ⟨stays, isClient⟩
  · have queued := inv.withRequest (a.client.withRequest op) op rfl rfl rfl rfl rfl
      rfl rfl (.inl (by simp [Client.withRequest, isSession])) inv.awaits
    have alone : (a.client.withRequest op).queued = [.request a.client.nextRequestNumber op] := by
      simp [Client.withRequest, isEmpty]
    rw [isClient]
    exact ⟨queued.sendRequest alone isSession mayGo, fun isQueued => absurd rfl isQueued⟩
  · obtain ⟨requests, queries, queued, session, config, nextRequest, nextQuery, more, has, awaits, _⟩ :=
      register_same (a.client.withRequest op)
    rw [isClient, became_register (a := a.issue _) (c := a.client.withRequest op) rfl]
    refine ⟨inv.withRequest _ op queued config session requests queries nextRequest nextQuery has
      (awaits inv.awaits), fun _ => ?_⟩
    rw [requests, queries]
    rcases has with isSome | isRegistering
    · rw [session] at isSome
      refine (progress.waits ?_).imp_right fun rest => rest.imp_right more
      exact (stays isSome).imp_right Client.inFlight_of_not_requestMayGo
    · exact .inr (.inr isRegistering)

theorem Inv.onQuery (inv : Inv a) (progress : a.client.Progress) (query : Query) :
    Inv ((a.issue (.query a.client.nextQueryNumber)).became (a.client.onQuery query).1) ∧
      (a.client.onQuery query).1.Progress := by
  have queued := inv.withQuery query
  rcases a.client.onQuery_cases query with ⟨isEmpty, mayGo, isClient⟩ | ⟨stays, isClient⟩
  · have alone : (a.client.withQuery query).queued = [.query a.client.nextQueryNumber query] := by
      simp [Client.withQuery, isEmpty]
    rw [isClient]
    exact ⟨queued.sendQuery alone mayGo, fun isQueued => absurd rfl isQueued⟩
  · rw [isClient, became_same (a := a.issue _) (c := a.client.withQuery query) rfl]
    exact ⟨queued, fun _ => progress.waits (stays.imp_right Client.inFlight_of_not_queryMayGo)⟩

/-! ## Completing an operation -/

theorem Inv.unsettled (inv : Inv a) {t : Ticket} (mem : t ∈ a.client.outstanding a.epoch) :
    t ∈ a.issued ∧ t ∉ a.settled := by
  rw [← inv.outstanding] at mem
  obtain ⟨isIssued, unsettled⟩ := List.mem_filter.mp mem
  exact ⟨isIssued, by simpa using unsettled⟩

/-- An operation in flight completes. -/
theorem Inv.complete (inv : Inv a) {t : Ticket} {client : Client Op Query}
    (config : client.config = a.client.config) (session : client.session = a.client.session)
    (registering : client.registering = a.client.registering)
    (nextRequest : client.nextRequestNumber = a.client.nextRequestNumber)
    (nextQuery : client.nextQueryNumber = a.client.nextQueryNumber)
    (queued : client.queued = a.client.queued)
    (requests : ∃ count ≤ a.client.requests.length,
      client.requests.map (·.number) = (a.client.requests.map (·.number)).drop count)
    (queries : ∃ count ≤ a.client.queries.length,
      client.queries.map (·.number) = (a.client.queries.map (·.number)).drop count)
    (requestsTrimmed : ∀ oldest, client.requests.head? = some oldest → oldest.item.isSome)
    (queriesTrimmed : ∀ oldest, client.queries.head? = some oldest → oldest.item.isSome)
    (isOut : t ∈ (unanswered a.client.requests).map (Ticket.request a.epoch) ++
      (unanswered a.client.queries).map Ticket.query)
    (requestsLeft : (unanswered client.requests).map (Ticket.request a.epoch) =
      ((unanswered a.client.requests).map (Ticket.request a.epoch)).filter (· ≠ t))
    (queriesLeft : (unanswered client.queries).map Ticket.query =
      ((unanswered a.client.queries).map Ticket.query).filter (· ≠ t)) :
    Inv { a with completed := a.completed ++ [t], client := client } := by
  have nodup : (a.client.outstanding a.epoch).Nodup := inv.outstanding ▸ inv.nodup.filter _
  obtain ⟨_, _, apart⟩ := List.nodup_append.mp nodup
  obtain ⟨isIssued, isUnsettled⟩ := inv.unsettled (List.mem_append_left _ isOut)
  obtain ⟨fewerRequests, requestsLe, requestNumbers⟩ := requests
  obtain ⟨fewerQueries, queriesLe, queryNumbers⟩ := queries
  have isLength : client.requests.length = a.client.requests.length - fewerRequests := by
    simpa using congrArg List.length requestNumbers
  have isLength' : client.queries.length = a.client.queries.length - fewerQueries := by
    simpa using congrArg List.length queryNumbers
  have settled : ∀ u, u ∈ (a.completed ++ [t]) ++ a.failed ↔ u = t ∨ u ∈ a.settled := by
    intro u
    unfold Account.settled
    simp only [List.mem_append, List.mem_singleton]
    tauto
  exact
    { oneKind := by
        refine inv.oneKind.imp (fun none => ?_) fun none => ?_
        · rw [none] at isLength
          exact List.length_eq_zero_iff.mp (by simpa using isLength)
        · rw [none] at isLength'
          exact List.length_eq_zero_iff.mp (by simpa using isLength')
      requestNumbers := by
        rw [requestNumbers, queued, nextRequest, ← List.drop_append_of_le_length (by simpa using requestsLe)]
        exact inv.requestNumbers.drop (by simp only [List.length_append, List.length_map]; omega)
      queryNumbers := by
        rw [queryNumbers, queued, nextQuery, ← List.drop_append_of_le_length (by simpa using queriesLe)]
        exact inv.queryNumbers.drop (by simp only [List.length_append, List.length_map]; omega)
      requestsTrimmed := requestsTrimmed
      queriesTrimmed := queriesTrimmed
      requestsFew := by
        rw [config, isLength]
        exact (Nat.sub_le _ _).trans inv.requestsFew
      queriesFew := by
        rw [config, isLength']
        exact (Nat.sub_le _ _).trans inv.queriesFew
      nodup := inv.nodup
      requestsIssued := by
        rw [nextRequest]
        exact inv.requestsIssued
      queriesIssued := by
        rw [nextQuery]
        exact inv.queriesIssued
      outstanding := by
        have waiting : (a.client.queued.map (Queued.ticket a.epoch)).filter (· ≠ t) =
            a.client.queued.map (Queued.ticket a.epoch) := by
          refine List.filter_eq_self.mpr fun u mem => ?_
          simpa using fun same : u = t => apart t isOut u mem same.symm
        have fewer : client.outstanding a.epoch =
            (a.client.outstanding a.epoch).filter (· ≠ t) := by
          unfold Client.outstanding
          rw [List.filter_append, List.filter_append, ← requestsLeft, ← queriesLeft, waiting, queued]
        rw [fewer, ← inv.outstanding, List.filter_filter]
        refine List.filter_congr fun u _ => ?_
        have := settled u
        unfold Account.settled at this ⊢
        dsimp only
        simp only [this, not_or, Bool.decide_and]
      queue := by
        rw [queued]
        exact inv.queue
      inSession := by
        intro number mem
        have : Ticket.request a.epoch number ∈
            (unanswered client.requests).map (Ticket.request a.epoch) := List.mem_map_of_mem mem
        rw [requestsLeft] at this
        obtain ⟨other, isOther, same⟩ := List.mem_map.mp (List.mem_filter.mp this).1
        cases same
        rw [session]
        exact inv.inSession _ isOther
      asked := by
        intro number mem
        have : Ticket.query number ∈ (unanswered client.queries).map Ticket.query :=
          List.mem_map_of_mem mem
        rw [queriesLeft] at this
        obtain ⟨other, isOther, same⟩ := List.mem_map.mp (List.mem_filter.mp this).1
        cases same
        exact inv.asked _ isOther
      afterOthers := fun u isSent v before other =>
        (settled v).mpr (.inr (inv.afterOthers u isSent v before other))
      registers := by
        rw [queued, session, registering]
        exact inv.registers
      awaits := by
        rw [registering, session]
        exact inv.awaits
      once := by
        show ((a.completed ++ [t]) ++ a.failed).Nodup
        rw [List.append_assoc, List.singleton_append]
        refine (List.perm_middle.nodup_iff).mpr (List.nodup_cons.mpr ⟨isUnsettled, inv.once⟩)
      settledIssued := by
        intro u mem
        rcases (settled u).mp mem with rfl | before
        · exact isIssued
        · exact inv.settledIssued u before }

theorem filter_map_ne {numbers : List Nat} {number : Nat} {f : Nat → Ticket}
    (injective : ∀ n m, f n = f m → n = m) :
    (numbers.filter (· ≠ number)).map f = (numbers.map f).filter (· ≠ f number) := by
  rw [List.filter_map]
  congr 1
  refine List.filter_congr fun other _ => ?_
  have : f other = f number ↔ other = number := ⟨injective other number, fun same => by rw [same]⟩
  simp [this]

theorem Inv.answerRequest (inv : Inv a) {number : Nat}
    (answered : (answer a.client.requests number).2 = true) :
    number ∈ unanswered a.client.requests ∧
      Inv { a with
        completed := a.completed ++ [.request a.epoch number]
        client := { a.client with requests := (answer a.client.requests number).1 } } := by
  obtain ⟨first, _, isRange, _⟩ := inv.requestNumbers.split
  rw [List.length_map] at isRange
  rcases answer_cases number isRange inv.requestsTrimmed with
    ⟨mem, _, left, numbers, trimmed⟩ | unknown
  · refine ⟨mem, inv.complete rfl rfl rfl rfl rfl rfl numbers ⟨0, Nat.zero_le _, rfl⟩ trimmed
      inv.queriesTrimmed (List.mem_append_left _ (List.mem_map_of_mem mem)) ?_ ?_⟩
    · rw [left]
      exact filter_map_ne fun n m same => (Ticket.request.inj same).2
    · refine (List.filter_eq_self.mpr fun u isQuery => ?_).symm
      obtain ⟨_, _, rfl⟩ := List.mem_map.mp isQuery
      simp
  · rw [unknown] at answered
    cases answered

theorem Inv.answerQuery (inv : Inv a) {number : Nat}
    (answered : (answer a.client.queries number).2 = true) :
    number ∈ unanswered a.client.queries ∧
      Inv { a with
        completed := a.completed ++ [.query number]
        client := { a.client with queries := (answer a.client.queries number).1 } } := by
  obtain ⟨first, _, isRange, _⟩ := inv.queryNumbers.split
  rw [List.length_map] at isRange
  rcases answer_cases number isRange inv.queriesTrimmed with
    ⟨mem, _, left, numbers, trimmed⟩ | unknown
  · refine ⟨mem, inv.complete rfl rfl rfl rfl rfl rfl ⟨0, Nat.zero_le _, rfl⟩ numbers
      inv.requestsTrimmed trimmed (List.mem_append_right _ (List.mem_map_of_mem mem)) ?_ ?_⟩
    · refine (List.filter_eq_self.mpr fun u isRequest => ?_).symm
      obtain ⟨_, _, rfl⟩ := List.mem_map.mp isRequest
      simp
    · rw [left]
      exact filter_map_ne fun n m same => Ticket.query.inj same
  · rw [unknown] at answered
    cases answered

/-- A reply that completes nothing leaves what is in flight as it is. -/
theorem Inv.answer_unknown (inv : Inv a) {number : Nat} :
    ((answer a.client.requests number).2 = false →
      (answer a.client.requests number).1 = a.client.requests) ∧
    ((answer a.client.queries number).2 = false →
      (answer a.client.queries number).1 = a.client.queries) := by
  constructor
  · intro unanswered
    obtain ⟨first, _, isRange, _⟩ := inv.requestNumbers.split
    rw [List.length_map] at isRange
    rcases answer_cases number isRange inv.requestsTrimmed with ⟨_, answered, _⟩ | same
    · rw [answered] at unanswered
      cases unanswered
    · rw [same]
  · intro unanswered
    obtain ⟨first, _, isRange, _⟩ := inv.queryNumbers.split
    rw [List.length_map] at isRange
    rcases answer_cases number isRange inv.queriesTrimmed with ⟨_, answered, _⟩ | same
    · rw [answered] at unanswered
      cases unanswered
    · rw [same]

/-! ## Sessions -/

theorem Inv.no_requests (inv : Inv a) (noSession : a.client.session = none) :
    a.client.requests = [] := by
  cases shape : a.client.requests with
  | nil => rfl
  | cons oldest rest =>
      have isSome := inv.requestsTrimmed oldest (by rw [shape]; rfl)
      have mem : oldest.number ∈ unanswered a.client.requests := by
        rw [shape]
        exact List.mem_map_of_mem (List.mem_filter.mpr ⟨List.mem_cons_self, isSome⟩)
      obtain ⟨session, isSession, _⟩ := inv.inSession _ mem
      cases noSession.symm.trans isSession

/-- The session the client asked for. -/
theorem Inv.opened (inv : Inv a) (asked : a.client.registering.isSome) (session : Nat) :
    Inv { a with client := { a.client with registering := none, session := some session } } where
  oneKind := inv.oneKind
  requestNumbers := inv.requestNumbers
  queryNumbers := inv.queryNumbers
  requestsTrimmed := inv.requestsTrimmed
  queriesTrimmed := inv.queriesTrimmed
  requestsFew := inv.requestsFew
  queriesFew := inv.queriesFew
  nodup := inv.nodup
  requestsIssued := inv.requestsIssued
  queriesIssued := inv.queriesIssued
  outstanding := inv.outstanding
  queue := inv.queue
  inSession number mem := by
    replace mem : number ∈ unanswered a.client.requests := mem
    rw [inv.no_requests (inv.awaits asked)] at mem
    cases mem
  asked := inv.asked
  afterOthers := inv.afterOthers
  registers _ := .inl rfl
  awaits isSome := by cases isSome
  once := inv.once
  settledIssued := inv.settledIssued

/-- With its session the client gives up what it has no reply to. -/
theorem Inv.evicted (inv : Inv a) {client : Client Op Query} (requests : client.requests = [])
    (queries : client.queries = []) (queued : client.queued = [])
    (nextRequest : client.nextRequestNumber = 1)
    (nextQuery : client.nextQueryNumber = a.client.nextQueryNumber)
    (session : client.session = none) :
    Inv { a with
      failed := a.failed ++ a.client.outstanding a.epoch
      epoch := a.epoch + 1
      client := client } where
  oneKind := .inl requests
  requestNumbers := by
    rw [requests, queued, nextRequest]
    exact .nil le_rfl
  queryNumbers := by
    rw [queries, queued, nextQuery]
    obtain ⟨first, pos, _, isNext⟩ := inv.queryNumbers
    exact .nil (by omega)
  requestsTrimmed oldest isOldest := by
    rw [requests] at isOldest
    cases isOldest
  queriesTrimmed oldest isOldest := by
    rw [queries] at isOldest
    cases isOldest
  requestsFew := by
    rw [requests]
    exact Nat.zero_le _
  queriesFew := by
    rw [queries]
    exact Nat.zero_le _
  nodup := inv.nodup
  requestsIssued epoch number mem := by
    rcases inv.requestsIssued epoch number mem with earlier | ⟨same, _⟩ <;> left <;> dsimp only <;>
      omega
  queriesIssued number mem := by
    rw [nextQuery]
    exact inv.queriesIssued number mem
  outstanding := by
    have none : client.outstanding (a.epoch + 1) = [] := by
      simp [Client.outstanding, requests, queries, queued]
    rw [none, List.filter_eq_nil_iff]
    intro t isIssued
    by_cases isSettled : t ∈ a.settled
    · have : t ∈ a.completed ∨ t ∈ a.failed := List.mem_append.mp isSettled
      simp only [settled, List.mem_append, decide_not, Bool.not_eq_true', decide_eq_false_iff_not]
      tauto
    · have isOut : t ∈ a.client.outstanding a.epoch := by
        rw [← inv.outstanding]
        exact List.mem_filter.mpr ⟨isIssued, by simpa using isSettled⟩
      simp only [settled, List.mem_append, decide_not, Bool.not_eq_true', decide_eq_false_iff_not]
      tauto
  queue := by
    obtain ⟨earlier, isIssued, sent⟩ := inv.queue
    refine ⟨a.issued, by simp [queued], sent.trans ?_⟩
    rw [isIssued]
    exact List.sublist_append_left _ _
  inSession number mem := by
    rw [requests] at mem
    cases mem
  asked number mem := by
    rw [queries] at mem
    cases mem
  afterOthers t isSent u before other := by
    have := inv.afterOthers t isSent u before other
    unfold settled at this ⊢
    simp only [List.mem_append] at this ⊢
    tauto
  registers := by
    rintro ⟨number, op, mem⟩
    rw [queued] at mem
    cases mem
  awaits _ := session
  once := by
    show (a.completed ++ (a.failed ++ a.client.outstanding a.epoch)).Nodup
    rw [← List.append_assoc]
    refine List.nodup_append.mpr ⟨inv.once, inv.outstanding ▸ inv.nodup.filter _, ?_⟩
    rintro t isSettled u isOut rfl
    exact (inv.unsettled isOut).2 isSettled
  settledIssued t mem := by
    have : t ∈ a.completed ++ (a.failed ++ a.client.outstanding a.epoch) := mem
    rw [← List.append_assoc, List.mem_append] at this
    rcases this with before | isOut
    · exact inv.settledIssued t before
    · exact (inv.unsettled isOut).1

/-! ## Replies and idle periods -/

/-- What a reply is to a client: nothing, a session, an answer, or the end of its
session. -/
theorem onReply_cases (inv : Inv a) (reply : Reply Output) :
    (∃ viewNumber, a.client.onReply reply = ({ a.client with viewNumber := viewNumber }, none)) ∨
    (∃ viewNumber session, a.client.registering.isSome ∧ a.client.onReply reply =
      ({ a.client with
          viewNumber := viewNumber, registering := none, session := some session }.sendQueued,
        none)) ∨
    (∃ viewNumber v session number result, reply = .executed v a.client.clientId session number result ∧
      a.client.session = some session ∧ (answer a.client.requests number).2 = true ∧
      a.client.onReply reply =
        ({ a.client with
            viewNumber := viewNumber, requests := (answer a.client.requests number).1 }.sendQueued,
          some (.executed number result))) ∨
    (∃ viewNumber v number result, reply = .queried v a.client.clientId number result ∧
      (answer a.client.queries number).2 = true ∧
      a.client.onReply reply =
        ({ a.client with
            viewNumber := viewNumber, queries := (answer a.client.queries number).1 }.sendQueued,
          some (.queried number result))) ∨
    (∃ v session, reply = .evicted v a.client.clientId session ∧ a.client.session = some session ∧
      (a.client.onReply reply).2 = some .evicted ∧
      (a.client.onReply reply).1.requests = [] ∧ (a.client.onReply reply).1.queries = [] ∧
      (a.client.onReply reply).1.queued = [] ∧ (a.client.onReply reply).1.nextRequestNumber = 1 ∧
      (a.client.onReply reply).1.nextQueryNumber = a.client.nextQueryNumber ∧
      (a.client.onReply reply).1.session = none ∧
      (a.client.onReply reply).1.outbox.length ≤ a.client.outbox.length) := by
  by_cases other : reply.clientId ≠ a.client.clientId
  · left
    exact ⟨a.client.viewNumber, by unfold Client.onReply; rw [if_pos other]⟩
  · have isClient := not_not.mp other
    unfold Client.onReply
    rw [if_neg other]
    cases reply with
    | registered v clientId session =>
        dsimp only
        split
        · next opens => exact .inr (.inl ⟨_, session, opens.1, rfl⟩)
        · exact .inl ⟨_, rfl⟩
    | executed v clientId session number result =>
        cases isClient
        dsimp only
        split
        · exact .inl ⟨_, rfl⟩
        · next inSession =>
          have isSession : a.client.session = some session := by simpa using inSession
          split
          · next requests isAnswer =>
            refine .inr (.inr (.inl ⟨max a.client.viewNumber v, v, session, number, result, rfl,
              isSession, ?_, ?_⟩)) <;> rw [isAnswer]
            rfl
          · next requests isAnswer =>
            have unchanged := inv.answer_unknown.1 (by rw [isAnswer])
            rw [isAnswer] at unchanged
            obtain rfl : requests = a.client.requests := unchanged
            exact .inl ⟨max a.client.viewNumber v, rfl⟩
    | queried v clientId number result =>
        cases isClient
        dsimp only
        split
        · next queries isAnswer =>
          refine .inr (.inr (.inr (.inl ⟨max a.client.viewNumber v, v, number, result, rfl, ?_,
            ?_⟩))) <;> rw [isAnswer]
          rfl
        · next queries isAnswer =>
          have unchanged := inv.answer_unknown.2 (by rw [isAnswer])
          rw [isAnswer] at unchanged
          obtain rfl : queries = a.client.queries := unchanged
          exact .inl ⟨max a.client.viewNumber v, rfl⟩
    | evicted v clientId session =>
        cases isClient
        dsimp only
        split
        · exact .inl ⟨_, rfl⟩
        · next inSession =>
          have isSession : a.client.session = some session := by simpa using inSession
          exact .inr (.inr (.inr (.inr ⟨v, session, rfl, isSession, rfl, rfl, rfl, rfl, rfl, rfl, rfl,
            List.length_filter_le _ _⟩)))

theorem Inv.onReply (inv : Inv a) (progress : a.client.Progress) (reply : Reply Output) :
    Inv ((a.settle (a.client.onReply reply).2).became (a.client.onReply reply).1) ∧
      (a.client.onReply reply).1.Progress := by
  rcases onReply_cases inv reply with ⟨viewNumber, isReply⟩ |
    ⟨viewNumber, session, asked, isReply⟩ |
    ⟨viewNumber, v, session, number, result, _, _, answered, isReply⟩ |
    ⟨viewNumber, v, number, result, _, answered, isReply⟩ |
    ⟨v, session, _, _, completes, requests, queries, queued, nextRequest, nextQuery, noSession, shorter⟩
  · rw [isReply]
    have unsent : a.became { a.client with viewNumber := viewNumber } =
        { a with client := { a.client with viewNumber := viewNumber } } := became_same rfl
    exact ⟨unsent ▸ inv.congr rfl rfl id inv.awaits rfl rfl rfl rfl rfl, progress⟩
  · rw [isReply]
    have opened := inv.opened asked session
    have viewed := opened.congr (c := { a.client with
      viewNumber := viewNumber, registering := none, session := some session }) rfl rfl id
      opened.awaits rfl rfl rfl rfl rfl
    exact viewed.sendFrom rfl
  · rw [isReply]
    have done := (inv.answerRequest answered).2
    have viewed := done.congr (c := { a.client with
      viewNumber := viewNumber, requests := (answer a.client.requests number).1 }) rfl rfl id
      done.awaits rfl rfl rfl rfl rfl
    exact viewed.sendFrom rfl
  · rw [isReply]
    have done := (inv.answerQuery answered).2
    have viewed := done.congr (c := { a.client with
      viewNumber := viewNumber, queries := (answer a.client.queries number).1 }) rfl rfl id
      done.awaits rfl rfl rfl rfl rfl
    exact viewed.sendFrom rfl
  · rw [completes]
    have nothing : (a.settle (some (.evicted : Completion Output))).became (a.client.onReply reply).1 =
        { a.settle (some (.evicted : Completion Output)) with
          client := (a.client.onReply reply).1 } := by
      refine became_quiet fun post mem => ?_
      unfold posts at mem
      rw [show (a.settle (some (.evicted : Completion Output))).client = a.client from rfl,
        List.drop_eq_nil_of_le shorter] at mem
      cases mem
    rw [nothing]
    exact ⟨inv.evicted requests queries queued nextRequest nextQuery noSession,
      fun isQueued => absurd queued isQueued⟩

theorem sameFlight_resent (now : Nat) (inFlight : List (InFlight T)) :
    SameFlight (Client.resent now inFlight) inFlight := by
  unfold SameFlight Client.resent
  rw [List.map_map]
  refine List.map_congr_left fun sent _ => ?_
  simp only [Function.comp_apply]
  split <;> rfl

theorem mem_due {M : Type} {now : Nat} {inFlight : List (InFlight T)} {message : Nat → T → M} {m : M}
    (mem : m ∈ Client.due now inFlight message) :
    ∃ number item, number ∈ unanswered inFlight ∧ m = message number item := by
  obtain ⟨sent, isSent, isDue⟩ := List.mem_filterMap.mp mem
  split at isDue
  · obtain ⟨item, isItem, rfl⟩ := Option.map_eq_some_iff.mp isDue
    exact ⟨sent.number, item, List.mem_map_of_mem (List.mem_filter.mpr ⟨isSent, by simp [isItem]⟩),
      rfl⟩
  · cases isDue

/-- An idle period sends again what was sent. -/
theorem Inv.onIdle (inv : Inv a) (progress : a.client.Progress) :
    Inv (a.became a.client.onIdle) ∧ a.client.onIdle.Progress := by
  have requests : SameFlight a.client.onIdle.requests a.client.requests := by
    show SameFlight (if _ then _ else _) _
    split
    · exact sameFlight_resent _ _
    · rfl
  have queries : SameFlight a.client.onIdle.queries a.client.queries := sameFlight_resent _ _
  have registering : a.client.onIdle.registering.isSome = a.client.registering.isSome := by
    show Option.isSome (if _ then _ else _) = _
    cases a.client.registering with
    | none => rfl
    | some sent => split <;> rfl
  have again : ∀ post ∈ a.posts a.client.onIdle, post.1 ∈ a.sent.map Prod.fst := by
    intro post mem
    rw [posts_append (c := a.client.onIdle) rfl] at mem
    obtain ⟨message, isMessage, isPost⟩ := List.mem_filterMap.mp mem
    obtain ⟨outgoing, isOutgoing, isEach⟩ := List.mem_flatMap.mp isMessage
    obtain ⟨replicaId, _, rfl⟩ := List.mem_map.mp isEach
    rcases List.mem_append.mp isOutgoing with isOutgoing | isQuery
    · rcases List.mem_append.mp isOutgoing with isRegister | isRequest
      · split at isRegister
        · cases List.mem_singleton.mp isRegister
          cases isPost
        · cases isRegister
      · split at isRequest
        · next session oldest isSession isOldest =>
          obtain ⟨number, op, isOut, rfl⟩ := mem_due isRequest
          cases isPost
          obtain ⟨session', _, isSent⟩ := inv.inSession number isOut
          exact List.mem_map.mpr ⟨_, isSent, rfl⟩
        · cases isRequest
    · obtain ⟨number, query, isOut, rfl⟩ := mem_due isQuery
      cases isPost
      exact List.mem_map_of_mem (inv.asked number isOut)
  rw [became_quiet again]
  refine ⟨inv.congr rfl rfl registering.ge ?_ rfl rfl requests queries rfl, fun isQueued => ?_⟩
  · rw [registering]
    exact inv.awaits
  · rw [Ne, requests.eq_nil, Ne, queries.eq_nil, registering]
    exact progress isQueued

/-! ## Whole runs -/

theorem inv_step (inv : Inv a) (progress : a.client.Progress) (call : ClientCall Op Query Output) :
    Inv (a.step call) ∧ (a.step call).client.Progress := by
  cases call with
  | register =>
      obtain ⟨requests, queries, queued, _, _, _, _, more, _⟩ := register_same a.client
      refine ⟨inv.register, fun isQueued => ?_⟩
      replace isQueued : a.client.register.queued ≠ [] := isQueued
      show a.client.register.requests ≠ [] ∨ a.client.register.queries ≠ [] ∨ _
      rw [queued] at isQueued
      rw [requests, queries]
      exact (progress isQueued).imp_right fun rest => rest.imp_right more
  | request op =>
      have isNumber : (a.client.onRequest op).2 = a.client.nextRequestNumber := by
        simp only [Client.onRequest]
        split
        · split <;> rfl
        · rfl
      show Inv ((a.issue (.request a.epoch (a.client.onRequest op).2)).became _) ∧
        (a.client.onRequest op).1.Progress
      rw [isNumber]
      exact inv.onRequest progress op
  | query query =>
      have isNumber : (a.client.onQuery query).2 = a.client.nextQueryNumber := by
        simp only [Client.onQuery]
        split <;> rfl
      show Inv ((a.issue (.query (a.client.onQuery query).2)).became _) ∧
        (a.client.onQuery query).1.Progress
      rw [isNumber]
      exact inv.onQuery progress query
  | idle => exact inv.onIdle progress
  | drain => exact ⟨inv.congr rfl rfl id inv.awaits rfl rfl rfl rfl rfl, progress⟩
  | reply reply => exact inv.onReply progress reply

end Account

end Vsr
