import Vsr.Client.Calls

/-!
# The order, the window and the completions of a client

What a client promises its owner, in every state that calls and replies can bring
it to.
-/

set_option autoImplicit false

namespace Vsr

variable {Op Query Output : Type}

/-- What holds of a client that was made with `config`, whatever was called and
whatever replies arrived. -/
structure Account.Lawful (Output : Type) (config : Config) (a : Account Op Query) : Prop where
  oneKind : a.client.requests = [] ∨ a.client.queries = []
  requests : Window a.client.requests config.inFlightMax
  queries : Window a.client.queries config.inFlightMax
  issuedOnce : a.issued.Nodup
  /-- Operations are first sent in the order they were issued. -/
  sentInOrder : (a.sent.map Prod.fst).Sublist a.issued
  /-- An operation is sent after those of the other kind issued before it are done. -/
  sentAfterOthers : ∀ t ∈ a.sent.map Prod.fst, ∀ u, IssuedBefore a.issued u t →
    u.isRequest ≠ t.isRequest → u ∈ a.settled
  settledOnce : a.settled.Nodup
  settledIssued : ∀ t ∈ a.settled, t ∈ a.issued
  /-- A completed request was in flight, first sent in the session that is current. -/
  executed : ∀ (reply : Reply Output) number result,
    (a.client.onReply reply).2 = some (.executed number result) →
    ∃ session, a.client.session = some session ∧ number ∈ unanswered a.client.requests ∧
      (.request a.epoch number, some session) ∈ a.sent ∧
      ∃ viewNumber, reply = .executed viewNumber a.client.clientId session number result
  queried : ∀ (reply : Reply Output) number result,
    (a.client.onReply reply).2 = some (.queried number result) →
    number ∈ unanswered a.client.queries ∧
      ∃ viewNumber, reply = .queried viewNumber a.client.clientId number result
  /-- The end of the current session fails what is issued and neither completed nor
  failed, and nothing else fails anything. -/
  evicted : ∀ reply : Reply Output, (a.client.onReply reply).2 = some .evicted ↔
    ∃ viewNumber session, reply = .evicted viewNumber a.client.clientId session ∧
      a.client.session = some session
  fails : ∀ reply : Reply Output, (a.client.onReply reply).2 = some .evicted →
    (a.step (.reply reply)).failed = a.failed ++ a.issued.filter (fun t => decide (t ∉ a.settled)) ∧
      (a.step (.reply reply)).completed = a.completed ∧
      (a.step (.reply reply)).client.requests = [] ∧ (a.step (.reply reply)).client.queries = [] ∧
      (a.step (.reply reply)).client.queued = []
  /-- What is queued waits for a reply or for a session. -/
  progress : a.client.queued ≠ [] → unanswered a.client.requests ≠ [] ∨
    unanswered a.client.queries ≠ [] ∨ a.client.registering.isSome

theorem Consecutive.window {T : Type} {inFlight : List (InFlight T)} {more : List Nat} {next max : Nat}
    (consecutive : Consecutive (inFlight.map (·.number) ++ more) next)
    (trimmed : ∀ oldest, inFlight.head? = some oldest → oldest.item.isSome)
    (few : inFlight.length ≤ max) : Window inFlight max := by
  obtain ⟨first, _, isRange, _⟩ := consecutive.split
  rw [List.length_map] at isRange
  refine ⟨⟨first, isRange⟩, trimmed, few, fun oldest newest isOldest isNewest => ?_⟩
  have isLast := congrArg List.getLast? isRange
  rw [List.getLast?_map, isNewest, List.getLast?_range'] at isLast
  have isHead := congrArg List.head? isRange
  rw [List.head?_map, isOldest, List.head?_range'] at isHead
  have some : inFlight.length ≠ 0 := by
    intro none
    rw [List.length_eq_zero_iff.mp none] at isOldest
    cases isOldest
  simp only [Option.map_some, if_neg some, Option.some.injEq] at isLast isHead
  omega

theorem unanswered_ne_nil {T : Type} {inFlight : List (InFlight T)}
    (trimmed : ∀ oldest, inFlight.head? = some oldest → oldest.item.isSome) (some : inFlight ≠ []) :
    unanswered inFlight ≠ [] := by
  cases inFlight with
  | nil => exact absurd rfl some
  | cons oldest rest =>
      refine List.ne_nil_of_mem (a := oldest.number) ?_
      exact List.mem_map_of_mem (List.mem_filter.mpr ⟨List.mem_cons_self, trimmed oldest rfl⟩)

namespace Client

end Client

namespace Account

theorem Inv.lawful {a : Account Op Query} (inv : Inv a) (progress : a.client.Progress) :
    a.Lawful Output a.client.config where
  oneKind := inv.oneKind
  requests := inv.requestNumbers.window inv.requestsTrimmed inv.requestsFew
  queries := inv.queryNumbers.window inv.queriesTrimmed inv.queriesFew
  issuedOnce := inv.nodup
  sentInOrder := by
    obtain ⟨earlier, isIssued, sent⟩ := inv.queue
    rw [isIssued]
    exact sent.trans (List.sublist_append_left _ _)
  sentAfterOthers := inv.afterOthers
  settledOnce := inv.once
  settledIssued := inv.settledIssued
  executed reply number result completes := by
    rcases onReply_cases inv reply with ⟨_, isReply⟩ | ⟨_, _, _, isReply⟩ |
      ⟨_, v, session, n, r, rfl, isSession, answered, isReply⟩ | ⟨_, _, _, _, _, _, isReply⟩ |
      ⟨_, _, _, _, isEvicted, _⟩
    · rw [isReply] at completes
      cases completes
    · rw [isReply] at completes
      cases completes
    · rw [isReply] at completes
      cases completes
      obtain ⟨mem, _⟩ := inv.answerRequest answered
      obtain ⟨session', isSession', isSent⟩ := inv.inSession number mem
      obtain rfl : session = session' := Option.some.inj (isSession.symm.trans isSession')
      exact ⟨session, isSession, mem, isSent, v, rfl⟩
    · rw [isReply] at completes
      cases completes
    · rw [isEvicted] at completes
      cases completes
  queried reply number result completes := by
    rcases onReply_cases inv reply with ⟨_, isReply⟩ | ⟨_, _, _, isReply⟩ |
      ⟨_, _, _, _, _, _, _, _, isReply⟩ | ⟨_, v, n, r, rfl, answered, isReply⟩ |
      ⟨_, _, _, _, isEvicted, _⟩
    · rw [isReply] at completes
      cases completes
    · rw [isReply] at completes
      cases completes
    · rw [isReply] at completes
      cases completes
    · rw [isReply] at completes
      cases completes
      exact ⟨(inv.answerQuery answered).1, v, rfl⟩
    · rw [isEvicted] at completes
      cases completes
  evicted reply := by
    constructor
    · intro completes
      rcases onReply_cases inv reply with ⟨_, isReply⟩ | ⟨_, _, _, isReply⟩ |
        ⟨_, _, _, _, _, _, _, _, isReply⟩ | ⟨_, _, _, _, _, _, isReply⟩ |
        ⟨v, session, isReply, isSession, _⟩
      · rw [isReply] at completes
        cases completes
      · rw [isReply] at completes
        cases completes
      · rw [isReply] at completes
        cases completes
      · rw [isReply] at completes
        cases completes
      · exact ⟨v, session, isReply, isSession⟩
    · rintro ⟨viewNumber, session, rfl, isSession⟩
      have isClient : (Reply.evicted viewNumber a.client.clientId session : Reply Output).clientId =
          a.client.clientId := rfl
      unfold Client.onReply
      rw [if_neg (not_not.mpr isClient)]
      dsimp only
      rw [if_neg (not_not.mpr isSession)]
  fails reply completes := by
    rcases onReply_cases inv reply with ⟨_, isReply⟩ | ⟨_, _, _, isReply⟩ |
      ⟨_, _, _, _, _, _, _, _, isReply⟩ | ⟨_, _, _, _, _, _, isReply⟩ |
      ⟨_, _, _, _, _, requests, queries, queued, _⟩
    · rw [isReply] at completes
      cases completes
    · rw [isReply] at completes
      cases completes
    · rw [isReply] at completes
      cases completes
    · rw [isReply] at completes
      cases completes
    · have isFailed : (a.step (.reply reply)).failed =
          a.failed ++ a.client.outstanding a.epoch := by
        show (a.settle (a.client.onReply reply).2).failed = _
        rw [completes]
        rfl
      have isCompleted : (a.step (.reply reply)).completed = a.completed := by
        show (a.settle (a.client.onReply reply).2).completed = _
        rw [completes]
        rfl
      exact ⟨by rw [isFailed, inv.outstanding], isCompleted, requests, queries, queued⟩
  progress isQueued := by
    rcases progress isQueued with some | some | registering
    · exact .inl (unanswered_ne_nil inv.requestsTrimmed some)
    · exact .inr (.inl (unanswered_ne_nil inv.queriesTrimmed some))
    · exact .inr (.inr registering)

end Account

end Vsr
