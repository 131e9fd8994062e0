import Vsr.Replica.Effects

/-!
# The queue of waiting queries

Queries wait in the order of their rounds and of their ops, so looking at the front
of the queue is enough to find every query that may go.
-/

set_option autoImplicit false

namespace Vsr

/-- What tells a query from the others that wait. -/
def WaitingQuery.key {Query : Type} (query : WaitingQuery Query) : Nat × Nat :=
  (query.clientId, query.queryNumber)

namespace QueryState

variable {Query : Type} {q : QueryState Query} {completed applied : Nat}

/-- The queue while ops up to `completed` may have completed. -/
structure InOrder (q : QueryState Query) (completed : Nat) : Prop where
  ordered : q.queries.Pairwise fun a b => a.round ≤ b.round ∧ a.opNumber ≤ b.opNumber
  distinct : (q.queries.map WaitingQuery.key).Nodup
  waiting : q.waiting = (q.queries.map WaitingQuery.key).toFinset
  completed : ∀ query ∈ q.queries, query.opNumber ≤ completed
  behind : q.roundConfirmed ≤ q.round
  bounded : q.round ≤ q.roundConfirmed + roundsOut
  /-- A query waits for a round that exists, or, with every round out, for the next. -/
  next : ∀ query ∈ q.queries, query.round ≤ q.round ∨
    (query.round = q.round + 1 ∧ q.round = q.roundConfirmed + roundsOut ∧ q.roundUnsent = false)
  unsent : q.roundUnsent = true → q.roundConfirmed < q.round

/-- No query that waits may go. -/
def Unready (q : QueryState Query) (applied : Nat) : Prop :=
  ∀ query ∈ q.queries, q.roundConfirmed < query.round ∨ applied < query.opNumber

/-- No query waits and no round is open. -/
structure Idle (q : QueryState Query) : Prop where
  queries : q.queries = []
  waiting : q.waiting = ∅
  round : q.round = 0
  roundConfirmed : q.roundConfirmed = 0
  confirmed : ∀ mark ∈ q.confirmed, mark = 0
  unsent : q.roundUnsent = false

theorem Idle.inOrder (idle : q.Idle) : q.InOrder completed := by
  constructor <;> simp [idle.queries, idle.waiting, idle.round, idle.roundConfirmed, idle.unsent]

theorem Idle.unready (idle : q.Idle) : q.Unready applied := by
  intro query mem
  rw [idle.queries] at mem
  cases mem

theorem InOrder.mono (inOrder : q.InOrder completed) {later : Nat} (le : completed ≤ later) :
    q.InOrder later :=
  { inOrder with completed := fun query mem => (inOrder.completed query mem).trans le }

/-- The round asked for has left. -/
theorem InOrder.sent (inOrder : q.InOrder completed) :
    { q with roundUnsent := false }.InOrder completed where
  ordered := inOrder.ordered
  distinct := inOrder.distinct
  waiting := inOrder.waiting
  completed := inOrder.completed
  behind := inOrder.behind
  bounded := inOrder.bounded
  next query mem := (inOrder.next query mem).imp_right fun waits => ⟨waits.1, waits.2.1, rfl⟩
  unsent := nofun

/-- The next round is open. -/
def opened (q : QueryState Query) (selfId : Nat) : QueryState Query :=
  { q with
    round := q.round + 1
    roundUnsent := true
    confirmed := q.confirmed.set selfId (q.round + 1) }

theorem InOrder.opened (inOrder : q.InOrder completed) {selfId : Nat}
    (room : q.round - q.roundConfirmed < roundsOut) : (q.opened selfId).InOrder completed where
  ordered := inOrder.ordered
  distinct := inOrder.distinct
  waiting := inOrder.waiting
  completed := inOrder.completed
  behind := inOrder.behind.trans (Nat.le_succ _)
  bounded := by
    show q.round + 1 ≤ q.roundConfirmed + roundsOut
    omega
  next query mem := by
    rcases inOrder.next query mem with inside | ⟨next, _⟩
    · exact .inl (inside.trans (Nat.le_succ _))
    · exact .inl next.le
  unsent _ := Nat.lt_succ_of_le inOrder.behind

/-- Replicas have confirmed more, up to `mark` by a quorum. -/
def marked (q : QueryState Query) (confirmed : List Nat) (mark : Nat) : QueryState Query :=
  { q with confirmed := confirmed, roundConfirmed := mark }

theorem InOrder.marked (inOrder : q.InOrder completed) {confirmed : List Nat} {mark : Nat}
    (le : mark ≤ q.round) (more : q.roundConfirmed ≤ mark)
    (unsent : q.roundUnsent = true → mark < q.round)
    (awaited : mark = q.roundConfirmed ∨ ∀ query ∈ q.queries, query.round ≤ q.round) :
    (q.marked confirmed mark).InOrder completed where
  ordered := inOrder.ordered
  distinct := inOrder.distinct
  waiting := inOrder.waiting
  completed := inOrder.completed
  behind := le
  bounded := inOrder.bounded.trans (Nat.add_le_add_right more _)
  next query mem := by
    rcases awaited with rfl | inside
    · exact inOrder.next query mem
    · exact .inl (inside query mem)
  unsent := unsent

/-- A round that ended makes room for the one that queries wait for. -/
theorem InOrder.marked_opened (inOrder : q.InOrder completed) {confirmed : List Nat} {mark selfId : Nat}
    (le : mark ≤ q.round) (more : q.roundConfirmed < mark) :
    ((q.marked confirmed mark).opened selfId).InOrder completed where
  ordered := inOrder.ordered
  distinct := inOrder.distinct
  waiting := inOrder.waiting
  completed := inOrder.completed
  behind := le.trans (Nat.le_succ _)
  bounded := by
    have := inOrder.bounded
    show q.round + 1 ≤ mark + roundsOut
    omega
  next query mem := by
    rcases inOrder.next query mem with inside | ⟨next, _⟩
    · exact .inl (inside.trans (Nat.le_succ _))
    · exact .inl next.le
  unsent _ := Nat.lt_succ_of_le le

/-- A query joins the queue for `round`. -/
def join (q : QueryState Query) (query : WaitingQuery Query) : QueryState Query :=
  { q with waiting := insert query.key q.waiting, queries := q.queries ++ [query] }

theorem InOrder.join (inOrder : q.InOrder completed) (query : WaitingQuery Query)
    (fresh : query.key ∉ q.waiting) (op : query.opNumber = completed)
    (last : ∀ other ∈ q.queries, other.round ≤ query.round)
    (next : query.round ≤ q.round ∨ (query.round = q.round + 1 ∧
      q.round = q.roundConfirmed + roundsOut ∧ q.roundUnsent = false)) :
    (q.join query).InOrder completed where
  ordered := by
    refine List.pairwise_append.mpr ⟨inOrder.ordered, List.pairwise_singleton _ _, ?_⟩
    intro other mem new isNew
    cases List.mem_singleton.mp isNew
    exact ⟨last other mem, (inOrder.completed other mem).trans op.ge⟩
  distinct := by
    rw [QueryState.join, List.map_append, List.nodup_append]
    refine ⟨inOrder.distinct, List.nodup_singleton _, ?_⟩
    rintro key mem _ isNew rfl
    cases List.mem_singleton.mp isNew
    exact fresh (inOrder.waiting ▸ List.mem_toFinset.mpr mem)
  waiting := by
    rw [QueryState.join, List.map_append, List.toFinset_append, inOrder.waiting]
    show insert query.key _ = _ ∪ {query.key}
    rw [Finset.insert_eq, Finset.union_comm]
  completed other mem := by
    rcases List.mem_append.mp mem with old | new
    · exact inOrder.completed other old
    · cases List.mem_singleton.mp new
      exact op.le
  behind := inOrder.behind
  bounded := inOrder.bounded
  next other mem := by
    rcases List.mem_append.mp mem with old | new
    · exact inOrder.next other old
    · cases List.mem_singleton.mp new
      exact next
  unsent := inOrder.unsent

theorem Unready.join (unready : q.Unready applied) (query : WaitingQuery Query)
    (waits : q.roundConfirmed < query.round) : (q.join query).Unready applied := by
  intro other mem
  rcases List.mem_append.mp mem with old | new
  · exact unready other old
  · cases List.mem_singleton.mp new
    exact .inl waits

/-! ## Letting queries go -/

/-- Whether a query may go. -/
def ready (q : QueryState Query) (applied : Nat) (query : WaitingQuery Query) : Bool :=
  query.round ≤ q.roundConfirmed && query.opNumber ≤ applied

/-- The queue without the queries at its front that may go. -/
def answered (q : QueryState Query) (applied : Nat) : QueryState Query :=
  { q with
    queries := q.queries.dropWhile (q.ready applied)
    waiting := ((q.queries.dropWhile (q.ready applied)).map WaitingQuery.key).toFinset }

theorem InOrder.answered (inOrder : q.InOrder completed) : (q.answered applied).InOrder completed :=
  have left : (q.queries.dropWhile (q.ready applied)).Sublist q.queries :=
    List.dropWhile_sublist _
  { ordered := inOrder.ordered.sublist left
    distinct := inOrder.distinct.sublist (left.map _)
    waiting := rfl
    completed := fun query mem => inOrder.completed query (left.subset mem)
    behind := inOrder.behind
    bounded := inOrder.bounded
    next := fun query mem => inOrder.next query (left.subset mem)
    unsent := inOrder.unsent }

/-- If the front of the queue may not go, nothing in it may. -/
theorem InOrder.unready (inOrder : q.InOrder completed) : (q.answered applied).Unready applied := by
  intro query mem
  have ordered : (q.answered applied).queries.Pairwise _ := inOrder.answered.ordered
  show q.roundConfirmed < query.round ∨ applied < query.opNumber
  cases isLeft : (q.answered applied).queries with
  | nil =>
      rw [isLeft] at mem
      cases mem
  | cons front rest =>
      rw [isLeft] at mem ordered
      have waits : q.ready applied front = false := by
        have stays := List.head?_dropWhile_not (q.ready applied) q.queries
        have front : (q.queries.dropWhile (q.ready applied)).head? = some front := by
          rw [show q.queries.dropWhile (q.ready applied) = front :: rest from isLeft]
          rfl
        rw [front] at stays
        simpa using stays
      have later : front.round ≤ query.round ∧ front.opNumber ≤ query.opNumber := by
        rcases List.mem_cons.mp mem with rfl | behind
        · exact ⟨le_rfl, le_rfl⟩
        · exact (List.pairwise_cons.mp ordered).1 query behind
      simp only [ready, Bool.and_eq_false_iff, decide_eq_false_iff_not, not_le] at waits
      exact waits.imp later.1.trans_lt' later.2.trans_lt'

end QueryState

namespace Replica

variable {SM : Type} [StateMachine SM] {r r' : Replica SM}

/-- The loop of `execute_queries` lets go what is at the front and may. -/
theorem answerQueries_answered (r : Replica SM) (queries : List (WaitingQuery (Query SM)))
    (distinct : (queries.map WaitingQuery.key).Nodup)
    (waiting : r.waiting = (queries.map WaitingQuery.key).toFinset) :
    (r.answerQueries queries).toQueryState =
      { r.toQueryState with queries := queries }.answered r.applied := by
  induction queries generalizing r with
  | nil =>
      show { r.toQueryState with queries := [] } = _
      unfold QueryState.answered
      dsimp only [List.dropWhile_nil]
      rw [← waiting]
  | cons query rest ih =>
      rw [List.map_cons, List.nodup_cons] at distinct
      unfold answerQueries
      by_cases waits : query.round > r.roundConfirmed ∨ query.opNumber > r.applied
      · rw [if_pos waits]
        have stays : ¬ QueryState.ready
            { r.toQueryState with queries := query :: rest } r.applied query = true := by
          simp only [QueryState.ready, Bool.and_eq_true, decide_eq_true_eq]
          omega
        unfold QueryState.answered
        rw [List.dropWhile_cons_of_neg stays, ← waiting]
      · rw [if_neg waits]
        have goes : QueryState.ready
            { r.toQueryState with queries := query :: rest } r.applied query = true := by
          simp only [QueryState.ready, Bool.and_eq_true, decide_eq_true_eq]
          omega
        rw [ih _ distinct.2]
        · unfold QueryState.answered
          rw [List.dropWhile_cons_of_pos goes]
          rfl
        · show r.waiting.erase query.key = _
          rw [waiting, List.map_cons, List.toFinset_cons, Finset.erase_insert]
          rw [List.mem_toFinset]
          exact distinct.1

/-- `execute_queries` of a normal primary. -/
theorem executeQueries_answered {completed : Nat} (primary : r.isPrimary)
    (status : r.status = .normal) (inOrder : r.toQueryState.InOrder completed) :
    r.executeQueries.toQueryState = r.toQueryState.answered r.applied := by
  unfold executeQueries
  rw [if_pos ⟨primary, status⟩]
  exact answerQueries_answered r r.queries inOrder.distinct inOrder.waiting

end Replica

end Vsr
