import Vsr.Durable.Promises
import Vsr.Query.Marks
import Vsr.Query.Order

/-!
# Rounds of view confirmations

The primary keeps the queries of its view in order, and counts for each round who
has confirmed the view.
-/

set_option autoImplicit false

namespace Vsr

open Relation (ReflTransGen)

namespace Replica

variable {SM : Type} [StateMachine SM] {heard : MessageFor SM → Prop} {r r' : Replica SM}

/-! ## What waits -/

/-- The queries that wait, in a view the replica leads or anywhere else. -/
structure Waits (r : Replica SM) : Prop where
  inOrder : r.toQueryState.InOrder (max r.commitNumber r.viewStartOp)
  unready : r.toQueryState.Unready r.applied
  alone : ¬(r.isPrimary ∧ r.status = .normal) → r.toQueryState.Idle
  behind : r.status = .stateTransfer → ¬r.isPrimary

/-- `r'` is in the view of `r`, in the same status. -/
structure SameSeat (r r' : Replica SM) : Prop where
  status : r'.status = r.status
  view : r'.viewNumber = r.viewNumber
  config : r'.config = r.config
  selfId : r'.selfId = r.selfId

theorem SameSeat.refl (r : Replica SM) : SameSeat r r := ⟨rfl, rfl, rfl, rfl⟩

theorem SameSeat.of_core (core : r'.toCore = r.toCore) : SameSeat r r' := by
  constructor <;> rw [core]

theorem SameSeat.primary (seat : SameSeat r r') : r'.isPrimary ↔ r.isPrimary := by
  show r'.selfId = r'.config.primaryId r'.viewNumber ↔ r.selfId = r.config.primaryId r.viewNumber
  rw [seat.config, seat.selfId, seat.view]

theorem SameSeat.executed (executed : Executed r r') : SameSeat r r' := by
  constructor <;> rw [executed.core]

/-- Nothing that queries wait for changes. -/
theorem Waits.same (waits : r.Waits) (seat : SameSeat r r') (start : r'.viewStartOp = r.viewStartOp)
    (applied : r'.applied = r.applied) (commits : r.commitNumber ≤ r'.commitNumber)
    (queryState : r'.toQueryState = r.toQueryState) : r'.Waits where
  inOrder := by
    rw [queryState, start]
    exact waits.inOrder.mono (max_le_max commits le_rfl)
  unready := by
    rw [queryState, applied]
    exact waits.unready
  alone outside := by
    rw [queryState]
    rw [seat.primary, seat.status] at outside
    exact waits.alone outside
  behind status := by
    rw [seat.primary]
    exact waits.behind (seat.status.symm.trans status)

theorem Waits.idle (idle : r.toQueryState.Idle) (behind : r.status = .stateTransfer → ¬r.isPrimary) :
    r.Waits :=
  ⟨idle.inOrder, idle.unready, fun _ => idle, behind⟩

/-- What `execute_queries` leaves waiting at a normal primary. -/
theorem Waits.answered (primary : r.isPrimary) (status : r.status = .normal)
    (inOrder : r.toQueryState.InOrder (max r.commitNumber r.viewStartOp)) :
    r.executeQueries.Waits := by
  have core := (executeQueries_same r).core
  have seat : SameSeat r r.executeQueries := .of_core core
  have answers := executeQueries_answered primary status inOrder
  refine ⟨?_, ?_, fun outside => ?_, fun transfer => ?_⟩
  · rw [answers, core]
    exact inOrder.answered
  · rw [answers, core]
    exact inOrder.unready
  · rw [seat.primary, seat.status] at outside
    exact absurd ⟨primary, status⟩ outside
  · cases status.symm.trans (seat.status.symm.trans transfer)

/-- What `apply_committed` leaves waiting. -/
theorem Waits.applied {durable : Nat} (waits : r.Waits) (run : r.applyCommitted durable = some r') :
    r'.Waits := by
  have executed := (applyCommitted_executed run).1
  have seat : SameSeat r r' := .executed executed
  obtain ⟨many, execution, isResult⟩ := applyCommitted_eq run
  obtain ⟨core, _, same, _⟩ := applyMany_same execution
  set trimmed : Replica SM := { many with
    replyRanges := many.replyRanges.filter fun range => many.applied < range.2 } with isTrimmed
  have before : trimmed.toQueryState = r.toQueryState := same
  by_cases leads : r.isPrimary ∧ r.status = .normal
  · have seated : SameSeat trimmed r' := .of_core (isResult ▸ (executeQueries_same trimmed).core)
    rw [isResult]
    refine .answered ?_ ?_ ?_
    · rw [← seated.primary, seat.primary]
      exact leads.1
    · rw [← seated.status, seat.status]
      exact leads.2
    · have commits : trimmed.commitNumber = r.commitNumber := congrArg (·.commitNumber) core
      have start : trimmed.viewStartOp = r.viewStartOp := congrArg (·.viewStartOp) core
      rw [before, commits, start]
      exact waits.inOrder
  · have idle := waits.alone leads
    refine .idle ?_ fun status => ?_
    · rw [isResult, executeQueries_none]
      · rw [before]
        exact idle
      · exact (congrArg (·.queries) before).trans idle.queries
    · rw [seat.primary]
      exact waits.behind (seat.status.symm.trans status)

theorem Waits.committed {commitNumber : Nat} {reply : Bool} (waits : r.Waits)
    (run : r.commitUpTo commitNumber reply = some r') : r'.Waits := by
  unfold commitUpTo at run
  split at run
  · cases run
    exact waits
  · next new =>
    obtain ⟨durable, _, run⟩ := Option.bind_eq_some_iff.mp run
    refine Waits.applied ?_ run
    exact waits.same ⟨rfl, rfl, rfl, rfl⟩ rfl rfl (Nat.le_of_lt (not_le.mp new)) rfl

/-! ## Who has confirmed what -/

/-- A round the others may have been asked to confirm. -/
def Opened (r : Replica SM) (viewNumber round : Nat) : Prop :=
  viewNumber ≤ r.viewNumber ∧
    (viewNumber = r.viewNumber → r.isPrimary ∧ r.status = .normal ∧ round ≤ r.round)

/-- What the primary counts for the rounds of its view: `asked` are the rounds it has
asked the others to confirm, and `heard` the confirmations that came, by view,
round and replica. -/
structure Tally (r : Replica SM) (asked : List (Nat × Nat)) (heard : List (Nat × Nat × Nat)) :
    Prop where
  several : 3 ≤ r.config.replicas.length
  length : r.confirmed.length = r.config.replicas.length
  queued : ∀ envelope ∈ r.queued, ∀ viewNumber round,
    envelope.2 = .confirmView viewNumber round → r.Opened viewNumber round
  opens : ∀ ask ∈ asked, r.Opened ask.1 ask.2 ∧
    (ask.1 = r.viewNumber → r.roundUnsent = true → ask.2 < r.round)
  own : ∀ mark, r.confirmed[r.selfId]? = some mark → mark = r.round
  others : ∀ j mark, j ≠ r.selfId → r.confirmed[j]? = some mark →
    (mark = 0 ∨ (r.viewNumber, mark, j) ∈ heard) ∧
      ∀ round, (r.viewNumber, round, j) ∈ heard → round ≤ mark
  mark : r.roundConfirmed = quorumMark r.config.quorum r.confirmed
  only : ∀ confirmation ∈ heard, (confirmation.1, confirmation.2.1) ∈ asked

/-- The rounds open and confirmed are the same. -/
structure SameRounds (r r' : Replica SM) : Prop where
  round : r'.round = r.round
  roundConfirmed : r'.roundConfirmed = r.roundConfirmed
  confirmed : r'.confirmed = r.confirmed
  unsent : r'.roundUnsent = r.roundUnsent

theorem SameRounds.of_same (same : r'.toQueryState = r.toQueryState) : SameRounds r r' := by
  constructor <;> rw [same]

theorem applyCommitted_rounds {durable : Nat} (run : r.applyCommitted durable = some r') :
    SameRounds r r' := by
  obtain ⟨many, execution, rfl⟩ := applyCommitted_eq run
  obtain ⟨_, _, same, _⟩ := applyMany_same execution
  have answers := executeQueries_same { many with
    replyRanges := many.replyRanges.filter fun range => many.applied < range.2 }
  constructor
  · exact answers.round.trans (congrArg (·.round) same)
  · exact answers.roundConfirmed.trans (congrArg (·.roundConfirmed) same)
  · exact answers.confirmed.trans (congrArg (·.confirmed) same)
  · exact answers.roundUnsent.trans (congrArg (·.roundUnsent) same)

theorem commitUpTo_rounds {commitNumber : Nat} {reply : Bool}
    (run : r.commitUpTo commitNumber reply = some r') : SameRounds r r' := by
  unfold commitUpTo at run
  split at run
  · cases run
    exact .of_same rfl
  · obtain ⟨durable, _, run⟩ := Option.bind_eq_some_iff.mp run
    obtain ⟨round, roundConfirmed, confirmed, unsent⟩ := applyCommitted_rounds run
    exact ⟨round, roundConfirmed, confirmed, unsent⟩

variable {asked : List (Nat × Nat)} {confirmations : List (Nat × Nat × Nat)}

theorem Opened.same {viewNumber round : Nat} (opens : r.Opened viewNumber round)
    (seat : SameSeat r r') (more : r.round ≤ r'.round) : r'.Opened viewNumber round := by
  refine ⟨seat.view ▸ opens.1, fun view => ?_⟩
  obtain ⟨primary, status, inside⟩ := opens.2 (view.trans seat.view)
  exact ⟨seat.primary.mpr primary, seat.status.trans status, inside.trans more⟩

/-- Nothing that the primary counts changes. -/
theorem Tally.same (tally : r.Tally asked confirmations) (seat : SameSeat r r')
    (rounds : SameRounds r r')
    (queued : ∀ envelope ∈ r'.queued, envelope ∈ r.queued ∨ ∀ viewNumber round,
      envelope.2 = .confirmView viewNumber round → r.Opened viewNumber round) :
    r'.Tally asked confirmations where
  several := seat.config ▸ tally.several
  length := by
    rw [rounds.confirmed, seat.config]
    exact tally.length
  queued envelope mem viewNumber round isAsk := by
    refine Opened.same ?_ seat rounds.round.ge
    rcases queued envelope mem with old | new
    · exact tally.queued envelope old viewNumber round isAsk
    · exact new viewNumber round isAsk
  opens ask mem := by
    obtain ⟨opens, fresh⟩ := tally.opens ask mem
    rw [seat.view, rounds.unsent, rounds.round]
    exact ⟨opens.same seat rounds.round.ge, fresh⟩
  own := by
    rw [rounds.confirmed, rounds.round, seat.selfId]
    exact tally.own
  others := by
    rw [rounds.confirmed, seat.view, seat.selfId]
    exact tally.others
  mark := by
    rw [rounds.roundConfirmed, rounds.confirmed, seat.config]
    exact tally.mark
  only := tally.only

/-- A replica that counts nothing, in a view it asked nothing in. -/
theorem Tally.cleared (tally : r.Tally asked confirmations) (config : r'.config = r.config)
    (later : r.viewNumber ≤ r'.viewNumber)
    (outside : r.viewNumber = r'.viewNumber → ¬(r.isPrimary ∧ r.status = .normal))
    (idle : r'.toQueryState.Idle) (length : r'.confirmed.length = r.confirmed.length)
    (queued : ∀ envelope ∈ r'.queued, envelope ∈ r.queued) : r'.Tally asked confirmations := by
  have closed : ∀ {viewNumber round : Nat}, r.Opened viewNumber round → viewNumber < r'.viewNumber := by
    intro viewNumber round opens
    rcases lt_or_eq_of_le (opens.1.trans later) with before | same
    · exact before
    · have here : viewNumber = r.viewNumber := le_antisymm opens.1 (later.trans same.ge)
      obtain ⟨primary, status, _⟩ := opens.2 here
      exact absurd ⟨primary, status⟩ (outside (here.symm.trans same))
  have earlier : ∀ {viewNumber round : Nat}, r.Opened viewNumber round → r'.Opened viewNumber round :=
    fun opens => ⟨(closed opens).le, fun same => absurd same (closed opens).ne⟩
  have zero : ∀ (j mark : Nat), r'.confirmed[j]? = some mark → mark = 0 := fun j mark isMark =>
    idle.confirmed mark (List.mem_of_getElem? isMark)
  have long : r'.confirmed.length = r'.config.replicas.length := by
    rw [length, config]
    exact tally.length
  refine ⟨config ▸ tally.several, long, ?_, ?_, ?_, ?_, ?_, tally.only⟩
  · intro envelope mem viewNumber round isAsk
    exact earlier (tally.queued envelope (queued envelope mem) viewNumber round isAsk)
  · intro ask mem
    have opens := (tally.opens ask mem).1
    exact ⟨earlier opens, fun same => absurd same (closed opens).ne⟩
  · intro mark isMark
    rw [zero _ mark isMark, idle.round]
  · intro j mark _ isMark
    refine ⟨.inl (zero j mark isMark), fun round mem => ?_⟩
    exact absurd rfl (closed (tally.opens _ (tally.only _ mem)).1).ne
  · rw [idle.roundConfirmed]
    refine ((quorumMark_lt (k := 1) 0 ?_ ?_ ?_).resolve_right one_ne_zero |>
      Nat.lt_one_iff.mp).symm
    · exact Owner.quorum_two (config ▸ tally.several)
    · rw [long]
      unfold Config.quorum
      have := tally.several
      rw [config]
      omega
    · intro j mark _ isMark
      exact (zero j mark isMark).trans_lt one_pos

/-! ## Opening a round -/

/-- Another replica has confirmed only rounds it was asked to. -/
theorem Tally.others_le (tally : r.Tally asked confirmations) {j mark : Nat} (other : j ≠ r.selfId)
    (isMark : r.confirmed[j]? = some mark) : mark ≤ r.round ∧
      (r.roundUnsent = true → 0 < r.round → mark < r.round) := by
  rcases (tally.others j mark other isMark).1 with rfl | mem
  · exact ⟨Nat.zero_le _, fun _ pos => pos⟩
  · obtain ⟨opens, fresh⟩ := tally.opens _ (tally.only _ mem)
    exact ⟨(opens.2 rfl).2.2, fun unsent _ => fresh rfl unsent⟩

theorem Tally.enough (tally : r.Tally asked confirmations) :
    2 ≤ r.config.quorum ∧ r.config.quorum ≤ r.confirmed.length := by
  refine ⟨Owner.quorum_two tally.several, ?_⟩
  rw [tally.length]
  unfold Config.quorum
  have := tally.several
  omega

theorem Tally.started (tally : r.Tally asked confirmations) (primary : r.isPrimary)
    (status : r.status = .normal) (run : r.startRound = some r') :
    r'.Tally asked confirmations := by
  obtain ⟨inside, core, _, _, same, early, outbox, waiting, ready, _⟩ := startRound_effect run
  have seat : SameSeat r r' := .of_core core
  have round : r'.round = r.round + 1 := congrArg (·.round) same
  have confirmed : r'.confirmed = r.confirmed.set r.selfId (r.round + 1) :=
    congrArg (·.confirmed) same
  have more : r.round ≤ r'.round := round ▸ Nat.le_succ _
  have own : r.confirmed[r.selfId]? = some r.round := by
    have isMark := List.getElem?_eq_getElem inside
    rw [isMark, tally.own _ isMark]
  have far : ∀ (j : Nat), j ≠ r.selfId → r'.confirmed[j]? = r.confirmed[j]? := fun j other => by
    rw [confirmed, List.getElem?_set_ne other.symm]
  refine ⟨seat.config ▸ tally.several, ?_, ?_, ?_, ?_, ?_, ?_, tally.only⟩
  · rw [confirmed, List.length_set, seat.config]
    exact tally.length
  · intro envelope mem viewNumber asked isAsk
    have either : envelope ∈ r.queued ∨ envelope ∈ r.others.map (fun replicaId =>
        (replicaId, Message.confirmView r.viewNumber (r.round + 1))) := by
      simp only [Replica.queued, early, outbox, waiting, ready, List.mem_append] at mem ⊢
      tauto
    rcases either with old | new
    · exact (tally.queued envelope old viewNumber asked isAsk).same seat more
    · obtain ⟨_, _, rfl⟩ := List.mem_map.mp new
      cases isAsk
      exact ⟨seat.view.ge, fun _ => ⟨seat.primary.mpr primary, seat.status.trans status, round.ge⟩⟩
  · intro ask mem
    obtain ⟨opens, _⟩ := tally.opens ask mem
    refine ⟨opens.same seat more, fun view _ => ?_⟩
    rw [round]
    exact Nat.lt_succ_of_le (opens.2 (view.trans seat.view)).2.2
  · intro mark isMark
    rw [confirmed, seat.selfId, List.getElem?_set_self inside] at isMark
    rw [round]
    exact (Option.some.inj isMark).symm
  · intro j mark other isMark
    rw [seat.selfId] at other
    rw [far j other] at isMark
    rw [seat.view]
    exact tally.others j mark other isMark
  · have roundConfirmed : r'.roundConfirmed = r.roundConfirmed := congrArg (·.roundConfirmed) same
    rw [roundConfirmed, confirmed, seat.config, tally.mark]
    refine (quorumMark_ahead tally.enough.1 tally.enough.2 own fun j mark other isMark => ?_).symm
    exact (tally.others_le other isMark).1

/-- A query that arrives joins the queue. -/
theorem Tally.query (tally : r.Tally asked confirmations) (waits : r.Waits)
    {clientId queryNumber : Nat} {query : Query SM}
    (run : r.onQuery clientId queryNumber query = some r') :
    r'.Tally asked confirmations ∧ r'.Waits := by
  rcases onQuery_cases run with rfl | ⟨primary, status, fresh, joined, round, ask, rfl⟩
  · exact ⟨tally, waits⟩
  set waiting : Replica SM := { r with waiting := insert (clientId, queryNumber) r.waiting }
  have tallied : waiting.Tally asked confirmations :=
    tally.same ⟨rfl, rfl, rfl, rfl⟩ ⟨rfl, rfl, rfl, rfl⟩ fun envelope mem => .inl mem
  have leads : ∀ {s : Replica SM}, s.status = .normal → s.status = .stateTransfer → ¬s.isPrimary := by
    intro s normal transfer
    cases normal.symm.trans transfer
  rcases roundForQuery_cases ask with
    ⟨unsent, rfl, rfl⟩ | ⟨sent, behind, room, start, rfl⟩ | ⟨sent, full, rfl, rfl⟩
  · -- It joins the last round, which has not left.
    refine ⟨tallied.same ⟨rfl, rfl, rfl, rfl⟩ ⟨rfl, rfl, rfl, rfl⟩ fun envelope mem => .inl mem,
      ?_, ?_, fun outside => absurd ⟨primary, status⟩ outside, leads status⟩
    · refine waits.inOrder.join ⟨clientId, queryNumber, query, _, _⟩ fresh rfl ?_
        (.inl le_rfl)
      intro other mem
      rcases waits.inOrder.next other mem with inside | ⟨_, _, out⟩
      · exact inside
      · cases out.symm.trans unsent
    · exact waits.unready.join ⟨clientId, queryNumber, query, _, _⟩
        (waits.inOrder.unsent unsent)
  · -- It opens a round.
    have started := tallied.started primary status start
    obtain ⟨_, core, _, _, same, _⟩ := startRound_effect start
    have seat : SameSeat waiting joined := .of_core core
    have commits : joined.commitNumber = r.commitNumber := congrArg (·.commitNumber) core
    have startOp : joined.viewStartOp = r.viewStartOp := congrArg (·.viewStartOp) core
    have applied : joined.applied = r.applied := congrArg (·.applied) core
    have isJoined : ∀ new : WaitingQuery (Query SM), new.key = (clientId, queryNumber) →
        { joined with queries := joined.queries ++ [new] }.toQueryState =
          (r.toQueryState.opened r.selfId).join new := by
      intro new key
      show { joined.toQueryState with queries := joined.toQueryState.queries ++ [new] } = _
      rw [same]
      unfold QueryState.join
      rw [key]
      rfl
    refine ⟨started.same ⟨rfl, rfl, rfl, rfl⟩ ⟨rfl, rfl, rfl, rfl⟩ fun envelope mem => .inl mem,
      ?_, ?_, fun outside => ?_, fun transfer => ?_⟩
    · rw [isJoined _ rfl]
      show QueryState.InOrder _ (max joined.commitNumber joined.viewStartOp)
      rw [commits, startOp]
      refine (waits.inOrder.opened room).join _ fresh rfl ?_ (.inl le_rfl)
      intro other mem
      rcases waits.inOrder.next other mem with inside | ⟨next, _⟩
      · exact inside.trans (Nat.le_succ _)
      · exact next.le
    · rw [isJoined _ rfl]
      show QueryState.Unready _ joined.applied
      rw [applied]
      refine QueryState.Unready.join (q := r.toQueryState.opened r.selfId) waits.unready _ ?_
      exact Nat.lt_succ_of_le waits.inOrder.behind
    · exact absurd ⟨seat.primary.mpr primary, seat.status.trans status⟩ outside
    · cases (seat.status.trans status).symm.trans transfer
  · -- Every round is out: it waits for the next.
    refine ⟨tallied.same ⟨rfl, rfl, rfl, rfl⟩ ⟨rfl, rfl, rfl, rfl⟩ fun envelope mem => .inl mem,
      ?_, ?_, fun outside => absurd ⟨primary, status⟩ outside, leads status⟩
    · refine waits.inOrder.join ⟨clientId, queryNumber, query, _, _⟩ fresh rfl ?_
        (.inr ⟨rfl, le_antisymm waits.inOrder.bounded full, sent⟩)
      intro other mem
      rcases waits.inOrder.next other mem with inside | ⟨next, _⟩
      · exact inside.trans (Nat.le_succ _)
      · exact next.le
    · exact waits.unready.join ⟨clientId, queryNumber, query, _, _⟩
        (Nat.lt_succ_of_le waits.inOrder.behind)

/-! ## A confirmation -/

/-- A confirmation of a round that replica `j` has already confirmed. -/
theorem Tally.ignored (tally : r.Tally asked confirmations) {viewNumber round j : Nat}
    (isAsked : (viewNumber, round) ∈ asked)
    (known : viewNumber = r.viewNumber → ∀ mark, r.confirmed[j]? = some mark → round ≤ mark) :
    r.Tally asked ((viewNumber, round, j) :: confirmations) :=
  { tally with
    others := by
      intro i mark other isMark
      obtain ⟨either, below⟩ := tally.others i mark other isMark
      refine ⟨either.imp_right (List.mem_cons_of_mem _), fun later mem => ?_⟩
      rcases List.mem_cons.mp mem with new | old
      · cases new
        exact known rfl mark isMark
      · exact below later old
    only := by
      intro confirmation mem
      rcases List.mem_cons.mp mem with rfl | old
      · exact isAsked
      · exact tally.only confirmation old }

/-- The replica with the confirmation of `round` by replica `j` counted. -/
def counting (r : Replica SM) (j round : Nat) : Replica SM :=
  { r with
    confirmed := r.confirmed.set j round
    roundConfirmed := quorumMark r.config.quorum (r.confirmed.set j round) }

theorem Tally.counted (tally : r.Tally asked confirmations) {round j mark : Nat}
    (isAsked : (r.viewNumber, round) ∈ asked) (other : j ≠ r.selfId)
    (isMark : r.confirmed[j]? = some mark) (more : mark < round) :
    (r.counting j round).Tally asked ((r.viewNumber, round, j) :: confirmations) where
  several := tally.several
  length := List.length_set.trans tally.length
  queued := tally.queued
  opens := tally.opens
  own own isOwn := tally.own own ((List.getElem?_set_ne other).symm.trans isOwn)
  others i own elsewhere isOwn := by
    by_cases here : i = j
    · subst here
      have inside := (List.getElem?_eq_some_iff.mp isMark).1
      cases (List.getElem?_set_self inside).symm.trans isOwn
      refine ⟨.inr (List.mem_cons_self ..), fun later mem => ?_⟩
      rcases List.mem_cons.mp mem with new | old
      · cases new
        exact le_rfl
      · exact ((tally.others i mark elsewhere isMark).2 later old).trans more.le
    · have isOld := (List.getElem?_set_ne (Ne.symm here)).symm.trans isOwn
      obtain ⟨either, below⟩ := tally.others i own elsewhere isOld
      refine ⟨either.imp_right (List.mem_cons_of_mem _), fun later mem => ?_⟩
      rcases List.mem_cons.mp mem with new | old
      · cases new
        exact absurd rfl here
      · exact below later old
  mark := rfl
  only confirmation mem := by
    rcases List.mem_cons.mp mem with rfl | old
    · exact isAsked
    · exact tally.only confirmation old

/-- The primary counts a confirmation of a round it asked for. -/
theorem Tally.confirm (tally : r.Tally asked confirmations) (waits : r.Waits)
    {viewNumber round j : Nat} (isAsked : (viewNumber, round) ∈ asked)
    (run : r.onConfirmViewOk viewNumber round j = some r') :
    r'.Tally asked ((viewNumber, round, j) :: confirmations) ∧ r'.Waits := by
  rcases onConfirmViewOk_cases run with
    ⟨rfl, known⟩ | ⟨rfl, primary, status, inside, isOpen, more, counts⟩
  · refine ⟨tally.ignored isAsked fun view => ?_, waits⟩
    obtain ⟨primary, status, isOpen⟩ := (tally.opens _ isAsked).1.2 view
    exact known view primary status isOpen
  have isMark := List.getElem?_eq_getElem inside
  rw [isMark, Option.getD_some] at more
  have other : j ≠ r.selfId := by
    rintro rfl
    have := tally.own _ isMark
    omega
  have tallied := tally.counted isAsked other isMark more
  have higher : r.roundConfirmed ≤ quorumMark r.config.quorum (r.confirmed.set j round) := by
    rw [tally.mark]
    refine quorumMark_set ?_ tally.enough.2 isMark more.le
    exact Nat.zero_lt_two.trans_le tally.enough.1
  -- No quorum has confirmed a round that only the primary knows of.
  have below : ∀ k, 0 < k → (∀ i mark, i ≠ r.selfId →
      (r.counting j round).confirmed[i]? = some mark → mark < k) →
      quorumMark r.config.quorum (r.confirmed.set j round) < k := fun k pos others =>
    (quorumMark_lt r.selfId tallied.enough.1 tallied.enough.2 others).resolve_right pos.ne'
  have le : quorumMark r.config.quorum (r.confirmed.set j round) ≤ r.round := by
    refine Nat.le_of_lt_succ (below _ (Nat.succ_pos _) fun i mark elsewhere isMark => ?_)
    exact Nat.lt_succ_of_le (tallied.others_le elsewhere isMark).1
  have unsent : r.roundUnsent = true →
      quorumMark r.config.quorum (r.confirmed.set j round) < r.round := by
    intro unsent
    have pos : 0 < r.round := (Nat.zero_le _).trans_lt (waits.inOrder.unsent unsent)
    refine below _ pos fun i mark elsewhere isMark => ?_
    exact (tallied.others_le elsewhere isMark).2 unsent pos
  rcases counts with ⟨old, rfl⟩ | ⟨new, opened, start, rfl⟩
  · -- No later round is confirmed.
    have same : quorumMark r.config.quorum (r.confirmed.set j round) = r.roundConfirmed :=
      le_antisymm old higher
    have isCounting : { r with confirmed := r.confirmed.set j round } = r.counting j round := by
      unfold counting
      rw [same]
    rw [isCounting]
    refine ⟨tallied, ⟨?_, ?_, fun outside => absurd ⟨primary, status⟩ outside, fun transfer => ?_⟩⟩
    · exact waits.inOrder.marked le higher unsent (.inl same)
    · rw [← isCounting]
      exact waits.unready
    · cases status.symm.trans transfer
  · have inOrder := waits.inOrder
    change (r.counting j round).startRoundIfAwaited = some opened at start
    unfold startRoundIfAwaited at start
    split at start
    · have started := tallied.started primary status start
      obtain ⟨_, core, _, _, same, _⟩ := startRound_effect start
      have seat : SameSeat (r.counting j round) opened := .of_core core
      have answers := executeQueries_same opened
      refine ⟨started.same (.of_core answers.core)
        ⟨answers.round, answers.roundConfirmed, answers.confirmed, answers.roundUnsent⟩ ?_,
        .answered (seat.primary.mpr primary) (seat.status.trans status) ?_⟩
      · rw [answers.queued]
        exact fun _ mem => .inl mem
      · rw [same, core]
        exact inOrder.marked_opened le new
    · next awaited =>
      cases start
      have answers := executeQueries_same (r.counting j round)
      refine ⟨tallied.same (.of_core answers.core)
        ⟨answers.round, answers.roundConfirmed, answers.confirmed, answers.roundUnsent⟩ ?_,
        .answered primary status (inOrder.marked le higher unsent (.inr fun query mem => ?_))⟩
      · rw [answers.queued]
        exact fun _ mem => .inl mem
      · -- The last query waits for no later round than any other.
        obtain ⟨last, isLast⟩ := Option.isSome_iff_exists.mp
          (List.getLast?_isSome.mpr (List.ne_nil_of_mem mem))
        have within : last.round ≤ r.round := by
          have isLast' : (r.counting j round).queries.getLast? = some last := isLast
          rw [isLast', Option.any_some, decide_eq_true_eq, not_lt] at awaited
          exact awaited
        refine le_trans ?_ within
        obtain ⟨front, isQueue⟩ := List.getLast?_eq_some_iff.mp isLast
        have ordered := inOrder.ordered
        rw [isQueue] at ordered mem
        rcases List.mem_append.mp mem with before | same
        · exact ((List.pairwise_append.mp ordered).2.2 query before last
            (List.mem_singleton_self _)).1
        · rw [List.mem_singleton.mp same]

/-! ## Along the moves -/

/-- What holds of the queries and the rounds of a replica. -/
structure Polled (r : Replica SM) (asked : List (Nat × Nat))
    (confirmations : List (Nat × Nat × Nat)) : Prop where
  settled : r.Settled
  fetches : r.Fetches
  waits : r.Waits
  tally : r.Tally asked confirmations

/-- Nothing that the queries and the rounds depend on changes. -/
theorem Polled.same (polled : r.Polled asked confirmations) (settled : r'.Settled)
    (fetches : r'.Fetches) (seat : SameSeat r r') (start : r'.viewStartOp = r.viewStartOp)
    (applied : r'.applied = r.applied) (commits : r.commitNumber ≤ r'.commitNumber)
    (queryState : r'.toQueryState = r.toQueryState)
    (queued : ∀ envelope ∈ r'.queued, envelope ∈ r.queued ∨ ∀ viewNumber round,
      envelope.2 = .confirmView viewNumber round → r.Opened viewNumber round) :
    r'.Polled asked confirmations :=
  ⟨settled, fetches, polled.waits.same seat start applied commits queryState,
    polled.tally.same seat (.of_same queryState) queued⟩

/-- The replica leaves the view it was in, or was not in any. -/
theorem Polled.cleared (polled : r.Polled asked confirmations) (settled : r'.Settled)
    (fetches : r'.Fetches) (config : r'.config = r.config) (later : r.viewNumber ≤ r'.viewNumber)
    (outside : r.viewNumber = r'.viewNumber → ¬(r.isPrimary ∧ r.status = .normal))
    (idle : r'.toQueryState.Idle) (length : r'.confirmed.length = r.confirmed.length)
    (behind : r'.status = .stateTransfer → ¬r'.isPrimary)
    (queued : ∀ envelope ∈ r'.queued, envelope ∈ r.queued) : r'.Polled asked confirmations :=
  ⟨settled, fetches, .idle idle behind,
    polled.tally.cleared config later outside idle length queued⟩

theorem clearViewChangeState_idle (r : Replica SM) :
    r.clearViewChangeState.toQueryState.Idle := by
  refine ⟨rfl, rfl, rfl, rfl, fun mark mem => ?_, rfl⟩
  obtain ⟨_, _, rfl⟩ := List.mem_map.mp mem
  rfl

theorem queued_of_outboxes (early : r'.outboxEarly = r.outboxEarly) (outbox : r'.outbox = r.outbox)
    (waiting : r'.outboxWaiting = r.outboxWaiting) (ready : r'.outboxReady = r.outboxReady) :
    r'.queued = r.queued := by
  unfold queued
  rw [early, outbox, waiting, ready]

theorem Executed.queued (executed : Executed r r') : r'.queued = r.queued :=
  queued_of_outboxes executed.early executed.outbox executed.waiting executed.ready

theorem Polled.quiet (polled : r.Polled asked confirmations) (same : Quiet r r') :
    r'.Polled asked confirmations := by
  have queued := queued_of_outboxes same.early same.outbox same.waiting same.ready
  refine polled.same (Pledges.quiet polled.settled same).settled (polled.fetches.quiet same)
    ⟨?_, ?_, same.config, same.selfId⟩ same.viewStartOp ?_ ?_ same.queryState
    (queued ▸ fun _ mem => .inl mem)
  all_goals rw [same.standing]

theorem Polled.send (polled : r.Polled asked confirmations) (replicaId : Nat)
    {message : MessageFor SM} (settled : (r.send replicaId message).Settled)
    (asks : ∀ viewNumber round, message = .confirmView viewNumber round →
      r.Opened viewNumber round) : (r.send replicaId message).Polled asked confirmations := by
  have core := send_toCore r replicaId message
  refine polled.same settled (polled.fetches.same ?_ ?_ ?_) (.of_core core) ?_ ?_ ?_
    (send_toQueryState r replicaId message) fun envelope mem => ?_
  all_goals try rw [core]
  rcases mem_queued_send mem with rfl | old
  · exact .inr asks
  · exact .inl old

/-- Every move but a confirmation that counts. -/
theorem Polled.move (polled : r.Polled asked confirmations) (move : Move heard r r')
    (none : ∀ viewNumber round j, ¬heard (.confirmViewOk viewNumber round j)) :
    r'.Polled asked confirmations := by
  have settled := (move.pledges polled.settled).settled
  have fetches := polled.fetches.move move
  have waits := polled.waits
  have tally := polled.tally
  have away : ∀ {status : Status}, r.status = status → status ≠ .normal →
      ¬(r.isPrimary ∧ r.status = .normal) := fun same other leads =>
    other (same.symm.trans leads.2)
  cases move with
  | quiet same => exact polled.quiet same
  | send replicaId message truthful =>
      refine polled.send replicaId settled ?_
      rintro viewNumber round rfl
      obtain ⟨rfl, status, primary, inside⟩ := truthful
      exact ⟨le_rfl, fun _ => ⟨primary, status, inside⟩⟩
  | supersede =>
      refine polled.same settled fetches (.of_core rfl) rfl rfl le_rfl rfl fun envelope mem => .inl ?_
      simp only [queued, supersedeAcks, List.mem_append] at mem ⊢
      have := List.mem_of_mem_filter (a := envelope) (l := r.outbox)
        (p := fun envelope => !acknowledges r.primaryId r.viewNumber envelope)
      tauto
  | append entry =>
      exact polled.same settled fetches ⟨rfl, rfl, rfl, rfl⟩ rfl rfl le_rfl rfl fun _ => .inl
  | merge run =>
      have logged := mergeLog_logged run
      have queued : r'.queued = r.queued := by
        unfold queued
        rw [logged.outboxes]
      refine polled.same settled fetches ?_ ?_ ?_ ?_ logged.queryState (queued ▸ fun _ => .inl)
      · constructor <;> rw [logged.core] <;> rfl
      all_goals rw [logged.core]; try rfl
  | commit run =>
      have executed := commitUpTo_executed run
      refine ⟨settled, fetches, waits.committed run,
        tally.same (.executed executed) (commitUpTo_rounds run) ?_⟩
      rw [executed.queued]
      exact fun _ => .inl
  | @count _ replicaId opNumber run =>
      obtain ⟨_, _, ⟨_, rfl⟩ | ⟨_, run⟩⟩ := registerAck_cases run
      · exact polled
      · have executed := commitUpTo_executed run
        have waits : Waits { r with acked := r.acked.set replicaId (min opNumber r.opNumber) } :=
          waits.same ⟨rfl, rfl, rfl, rfl⟩ rfl rfl le_rfl rfl
        have seat := SameSeat.executed executed
        refine ⟨settled, fetches, waits.committed run,
          tally.same ⟨seat.status, seat.view, seat.config, seat.selfId⟩ ?_ ?_⟩
        · have rounds := commitUpTo_rounds run
          exact ⟨rounds.round, rounds.roundConfirmed, rounds.confirmed, rounds.unsent⟩
        · rw [executed.queued]
          exact fun _ => .inl
  | apply _ run =>
      have executed := (applyCommitted_executed run).1
      refine ⟨settled, fetches, waits.applied run,
        tally.same (.executed executed) (applyCommitted_rounds run) ?_⟩
      rw [executed.queued]
      exact fun _ => .inl
  | @enter m viewNumber _ _ later outside run =>
      have executed := commitUpTo_executed run
      have seat := SameSeat.executed executed
      have confirmed : m.confirmed = r.confirmed := (commitUpTo_rounds run).confirmed
      refine polled.cleared settled fetches seat.config (later.trans seat.view.ge) (fun same => ?_)
        (clearViewChangeState_idle _) ?_ (fun status => by cases status) (executed.queued ▸ fun _ mem => mem)
      · rcases outside with before | away
        · exact absurd (same.trans seat.view) before.ne
        · exact fun leads => away leads.2
      · show (m.confirmed.map _).length = _
        rw [List.length_map, confirmed]
  | @leave viewNumber later =>
      refine polled.cleared settled fetches rfl ?_ (fun same leads => ?_)
        (clearViewChangeState_idle _) (List.length_map _) (fun status => by cases status) fun _ mem => mem
      · rcases later with before | ⟨same, _⟩
        · exact before.le
        · exact same.le
      · rcases later with before | ⟨here, lastNormal⟩
        · exact before.ne same
        · have := polled.settled (.inl leads.2)
          omega
  | @turn viewNumber catchingUp later =>
      have idle := clearViewChangeState_idle { r with
        viewNumber := viewNumber, status := .viewChange, idlePeriodsWaiting := 0 }
      refine polled.cleared settled fetches rfl ?_ (fun same => ?_) idle (List.length_map _) (fun status => by cases status)
        fun _ mem => mem
      · rcases later with before | ⟨same, _⟩
        · exact before.le
        · exact same.le
      · rcases later with before | ⟨_, status⟩
        · exact absurd same before.ne
        · exact away status (by decide)
  | transfer status =>
      have backup : ¬(r.isPrimary ∧ r.status = .normal) := by
        rintro ⟨primary, normal⟩
        rcases status with ⟨_, backup⟩ | transfer
        · exact backup primary
        · cases transfer.symm.trans normal
      refine polled.cleared settled fetches rfl le_rfl (fun _ => backup) (waits.alone backup) rfl ?_
        fun _ mem => mem
      rcases status with ⟨_, backup⟩ | transfer
      · exact fun _ => backup
      · exact fun _ => waits.behind transfer
  | rejoin status free =>
      have backup := away status (by decide)
      exact polled.cleared settled fetches rfl le_rfl (fun _ => backup) (waits.alone backup) rfl
        (fun status => by cases status) fun _ mem => mem
  | refetch becomes =>
      exact polled.same settled fetches ⟨rfl, rfl, rfl, rfl⟩ rfl rfl le_rfl rfl fun _ => .inl
  | stage =>
      exact polled.same settled fetches ⟨rfl, rfl, rfl, rfl⟩ rfl rfl le_rfl rfl fun _ => .inl
  | rebuild run =>
      have same := rebuildPending_same run
      have queued : r'.queued = r.queued := by
        unfold queued
        rw [same.outboxes]
      refine polled.same settled fetches (.of_core same.core) ?_ ?_ ?_ same.queryState
        (queued ▸ fun _ => .inl)
      all_goals rw [same.core]
  | restore _ outside run =>
      obtain ⟨_, core, _, same, _, outboxes⟩ := restoreCheckpoint_effect run
      have backup : ¬(r.isPrimary ∧ r.status = .normal) := fun leads => outside leads.2
      have queued : r'.queued = r.queued := by
        unfold queued
        rw [outboxes]
      have seat : SameSeat r r' := by
        constructor <;> rw [core] <;> rfl
      refine polled.cleared settled fetches seat.config seat.view.ge (fun _ => backup)
        (same ▸ waits.alone backup) ?_ (fun status => ?_) (queued ▸ fun _ mem => mem)
      · exact congrArg (·.confirmed.length) same
      · rw [seat.primary]
        exact waits.behind (seat.status.symm.trans status)
  | keep run =>
      rcases keepCheckpoint_effect run with ⟨rfl, _⟩ | ⟨_, _, _, _, rfl⟩
      · exact polled
      · exact polled.same settled fetches ⟨rfl, rfl, rfl, rfl⟩ rfl rfl le_rfl rfl fun _ => .inl
  | release =>
      exact polled.same settled fetches ⟨rfl, rfl, rfl, rfl⟩ rfl rfl le_rfl rfl fun _ => .inl
  | query run =>
      obtain ⟨tally, waits⟩ := tally.query waits run
      exact ⟨settled, fetches, waits, tally⟩
  | confirm isHeard _ => exact absurd isHeard (none _ _ _)

theorem Polled.tell (polled : r.Polled asked confirmations) (tell : Tell r r') :
    r'.Polled asked confirmations := by
  have settled := (tell.pledges polled.settled).settled
  cases tell with
  | quiet same => exact polled.quiet same
  | send replicaId message holds =>
      refine polled.send replicaId settled ?_
      rintro viewNumber round rfl
      exact holds.elim

theorem Polled.handles (polled : r.Polled asked confirmations) (handles : Handles heard r r')
    (none : ∀ viewNumber round j, ¬heard (.confirmViewOk viewNumber round j)) :
    r'.Polled asked confirmations :=
  handles.induct (P := fun r => r.Polled asked confirmations) polled
    (fun polled move => polled.move move none) fun polled tell => polled.tell tell

/-- A confirmation that arrives after the round was asked for. -/
theorem Polled.confirm (polled : r.Polled asked confirmations) {viewNumber round j : Nat}
    (isAsked : (viewNumber, round) ∈ asked)
    (run : r.onMessage (.confirmViewOk viewNumber round j) = some r') :
    r'.Polled asked ((viewNumber, round, j) :: confirmations) := by
  unfold onMessage at run
  split at run
  · next asleep =>
    cases run
    refine ⟨polled.settled, polled.fetches, polled.waits, polled.tally.ignored isAsked fun view => ?_⟩
    have normal := ((polled.tally.opens _ isAsked).1.2 view).2.1
    cases normal.symm.trans asleep.1
  · have queried := onConfirmViewOk_queried run
    obtain ⟨tally, waits⟩ := polled.tally.confirm polled.waits isAsked run
    refine ⟨(Pledges.queried polled.settled queried).settled, polled.fetches.same ?_ ?_ ?_, waits,
      tally⟩
    all_goals rw [queried.core]

/-- A replica just made counts nothing. -/
theorem Polled.fresh (several : 3 ≤ r.config.replicas.length)
    (length : r.confirmed.length = r.config.replicas.length) (idle : r.toQueryState.Idle)
    (settled : r.Settled) (free : r.fetch = none) (behind : r.status ≠ .stateTransfer)
    (queued : ∀ envelope ∈ r.queued, ∀ viewNumber round,
      envelope.2 ≠ .confirmView viewNumber round) : r.Polled [] [] := by
  refine ⟨settled, fun _ isFetch => ?_, .idle idle fun status => absurd status behind,
    several, length, ?_, nofun, fun mark isMark => ?_, fun j mark _ isMark => ?_, ?_,
    nofun⟩
  · cases free.symm.trans isFetch
  · exact fun envelope mem viewNumber round isAsk =>
      absurd isAsk (queued envelope mem viewNumber round)
  · rw [idle.confirmed mark (List.mem_of_getElem? isMark), idle.round]
  · exact ⟨.inl (idle.confirmed mark (List.mem_of_getElem? isMark)), nofun⟩
  · rw [idle.roundConfirmed]
    refine (Nat.lt_one_iff.mp ((quorumMark_lt (k := 1) 0 (Owner.quorum_two several) ?_
      fun j mark _ isMark => ?_).resolve_right one_ne_zero)).symm
    · rw [length]
      unfold Config.quorum
      omega
    · exact (idle.confirmed mark (List.mem_of_getElem? isMark)).trans_lt Nat.one_pos

theorem fresh_idle (selfId : Nat) (config : Config) (stateMachine : SM) :
    (fresh selfId config stateMachine).toQueryState.Idle :=
  ⟨rfl, rfl, rfl, rfl, fun _ mem => List.eq_of_mem_replicate mem, rfl⟩

theorem recovery_quiet {s : Replica SM} (quiet : s.queued = []) :
    ∀ envelope ∈ s.sendRecovery.queued, ∀ viewNumber round,
      envelope.2 ≠ .confirmView viewNumber round := by
  intro envelope mem viewNumber round isAsk
  rcases mem_queued_sendEach mem with old | ⟨_, _, rfl⟩
  · rw [quiet] at old
    cases old
  · cases isAsk

/-- What `restart` restores asks and counts nothing. -/
theorem restored_idle {selfId : Nat} {config : Config} {stateMachine : SM} {applied nonce : Nat}
    {state : PersistentState (Input SM)}
    (run : restored selfId config stateMachine applied state nonce = some r) :
    3 ≤ r.config.replicas.length ∧ r.confirmed.length = r.config.replicas.length ∧
      r.toQueryState.Idle ∧ r.fetch = none ∧ r.status ≠ .stateTransfer ∧
      ∀ envelope ∈ r.queued, ∀ viewNumber round,
        envelope.2 ≠ .confirmView viewNumber round := by
  obtain ⟨several, peer, quiet, recovers⟩ := restored_peer run
  have isConfig : r.config = config := congrArg (·.config) peer
  have free : r.fetch = none := congrArg (·.fetch) peer
  have status : r.status = if state.recovering then .recovering else .normal :=
    congrArg (·.status) peer
  have outside : r.status ≠ .stateTransfer := by
    rw [status]
    split <;> decide
  have isFresh : r.toQueryState = (fresh selfId config stateMachine).toQueryState := by
    cases isRecovering : state.recovering with
    | true =>
        rw [recovers isRecovering]
        exact (sendRecovery_same
          (forgetful selfId config stateMachine state.viewNumber nonce)).queryState
    | false =>
        unfold restored at run
        rw [isRecovering] at run
        obtain ⟨made, make, run⟩ := Option.bind_eq_some_iff.mp run
        obtain ⟨_, rfl⟩ := new_eq make
        dsimp only at run
        split at run
        · obtain ⟨_, _, run⟩ := Option.bind_eq_some_iff.mp run
          cases run
          rfl
        · obtain ⟨_, run⟩ := require_eq_some.mp run
          cases run
          rfl
  refine ⟨isConfig ▸ several, ?_, isFresh ▸ fresh_idle _ _ _, free, outside, ?_⟩
  · rw [isConfig]
    exact (congrArg (·.confirmed.length) isFresh).trans List.length_replicate
  · cases isRecovering : state.recovering with
    | true =>
        rw [recovers isRecovering]
        exact recovery_quiet (s := forgetful selfId config stateMachine state.viewNumber nonce) rfl
    | false =>
        rw [quiet isRecovering]
        exact fun _ mem => by cases mem

theorem applyCommitted_idle {durable : Nat} (idle : r.toQueryState.Idle)
    (run : r.applyCommitted durable = some r') : r'.toQueryState = r.toQueryState := by
  obtain ⟨many, execution, rfl⟩ := applyCommitted_eq run
  obtain ⟨_, _, same, _⟩ := applyMany_same execution
  rw [executeQueries_none]
  · exact same
  · exact (congrArg (·.queries) same).trans idle.queries

theorem restart_polled {selfId : Nat} {config : Config} {stateMachine : SM} {applied nonce : Nat}
    {state : PersistentState (Input SM)}
    (run : restart selfId config stateMachine applied state nonce = some r) : r.Polled [] [] := by
  obtain ⟨made, woken, make, wakes⟩ := restart_wakes run
  obtain ⟨several, length, idle, free, outside, quiet⟩ := restored_idle make
  obtain ⟨executed, execute, rebuild⟩ := wakes.executes
  have ran := (applyCommitted_executed execute).1
  have same := rebuildPending_same rebuild
  have queryState : woken.toQueryState = made.toQueryState :=
    same.queryState.trans (applyCommitted_idle (r := made.risen applied state) idle execute)
  have core : woken.toCore = { made.toCore with
      commitNumber := executed.commitNumber, applied := executed.applied
      replyRanges := executed.replyRanges
      written := (made.risen applied state).written, durable := made.opNumber } := by
    rw [same.core, ran.core]
    rfl
  have queued : woken.queued = made.queued := by
    unfold queued
    rw [same.outboxes, ran.early, ran.outbox, ran.waiting, ran.ready]
    rfl
  have isConfig : woken.config = made.config := by rw [core]
  have long : woken.confirmed.length = woken.config.replicas.length := by
    rw [isConfig]
    exact (congrArg (·.confirmed.length) queryState).trans length
  rcases wakes.goesOn with ⟨rfl, goesOn⟩ | ⟨viewNumber, later, change⟩
  · refine .fresh (isConfig ▸ several) long (queryState ▸ idle) (fun started => ?_) ?_ ?_
      (queued ▸ quiet)
    · rcases goesOn with asleep | settled
      · rw [asleep] at started
        rcases started with normal | transfer
        · cases normal
        · cases transfer
      · exact settled
    · rw [core]
      exact free
    · rw [core]
      exact outside
  · have left : Handles (fun _ => False) (woken.leaveFor viewNumber) r :=
      startViewChange_left change
    refine Polled.handles (.fresh (isConfig ▸ several) ?_ (clearViewChangeState_idle _) ?_ rfl
      (fun status => by cases status) (queued ▸ quiet)) left fun _ _ _ => id
    · exact (List.length_map _).trans long
    · rintro (normal | transfer)
      · cases normal
      · cases transfer

end Replica

end Vsr
