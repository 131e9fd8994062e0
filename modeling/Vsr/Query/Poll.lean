import Vsr.Query.Rounds

/-!
# Runs of a primary with queries

In every run in which confirmations come only of rounds that were asked for, the
queries wait in order, and none that may go is left behind.
-/

set_option autoImplicit false

namespace Vsr

/-- A replica, the rounds it has asked the others to confirm in messages that were
drained, by view and round, and the confirmations that came, by view, round and
replica. -/
structure Poll (SM : Type) [StateMachine SM] where
  replica : Replica SM
  asked : List (Nat × Nat)
  heard : List (Nat × Nat × Nat)

namespace Poll

variable {SM : Type} [StateMachine SM] {p p' : Poll SM}

/-- The rounds that drained messages ask to confirm. -/
def asks (drained : List (Envelope SM)) : List (Nat × Nat) :=
  drained.filterMap fun envelope =>
    match envelope.2 with
    | .confirmView viewNumber round => some (viewNumber, round)
    | _ => none

/-- The round a message confirms. -/
def confirms : MessageFor SM → List (Nat × Nat × Nat)
  | .confirmViewOk viewNumber round replicaId => [(viewNumber, round, replicaId)]
  | _ => []

/-- What the owner does next.  A confirmation arrives only of a round asked for. -/
inductive Step : Poll SM → Poll SM → Prop
  | message {p : Poll SM} {r : Replica SM} (message : MessageFor SM)
      (fair : ∀ confirmation ∈ confirms message, (confirmation.1, confirmation.2.1) ∈ p.asked)
      (run : p.replica.onMessage message = some r) :
      Step p { p with replica := r, heard := confirms message ++ p.heard }
  | idle {p : Poll SM} {r : Replica SM} (run : p.replica.onIdle = some r) :
      Step p { p with replica := r }
  | compact {p : Poll SM} {r : Replica SM} (opNumber : Nat)
      (run : p.replica.compact opNumber = some r) : Step p { p with replica := r }
  | take {p : Poll SM} {r : Replica SM} {write : LogWrite (Input SM)}
      (run : p.replica.takeWrite = some (r, write)) : Step p { p with replica := r }
  | handBack {p : Poll SM} {r : Replica SM} (write : LogWrite (Input SM))
      (run : p.replica.persisted write = some r) : Step p { p with replica := r }
  | drainBeforePersist {p : Poll SM} : Step p
      { p with
        replica := p.replica.drainMessagesBeforePersist.1
        asked := asks p.replica.drainMessagesBeforePersist.2 ++ p.asked }
  | drain {p : Poll SM} : Step p
      { p with
        replica := p.replica.drainMessages.1
        asked := asks p.replica.drainMessages.2 ++ p.asked }
  | drainReplies {p : Poll SM} : Step p { p with replica := p.replica.drainReplies.1 }

inductive Reach : Poll SM → Prop
  | start {r : Replica SM} (made : r.Made) : Reach ⟨r, [], []⟩
  | step {p p' : Poll SM} (before : Reach p) (step : Step p p') : Reach p'

theorem polled_start {r : Replica SM} (made : r.Made) : r.Polled [] [] := by
  cases made with
  | new run =>
      obtain ⟨several, rfl⟩ := Replica.new_eq run
      refine .fresh several List.length_replicate (Replica.fresh_idle _ _ _) (fun _ => le_rfl) rfl
        nofun fun _ mem => ?_
      cases mem
  | @recover selfId config stateMachine viewNumber nonce r run =>
      obtain ⟨several, rfl⟩ := Replica.recover_eq run
      have same := Replica.sendRecovery_same
        (Replica.forgetful selfId config stateMachine viewNumber nonce)
      have status : (Replica.forgetful selfId config stateMachine viewNumber nonce).sendRecovery.status =
          .recovering := by rw [same.core]; rfl
      refine .fresh ?_ ?_ ?_ (fun started => ?_) ?_ ?_ (Replica.recovery_quiet rfl)
      · rw [same.core]
        exact several
      · rw [same.core]
        exact (congrArg (·.confirmed.length) same.queryState).trans List.length_replicate
      · rw [same.queryState]
        exact Replica.fresh_idle selfId config stateMachine
      · rw [status] at started
        rcases started with normal | transfer
        · cases normal
        · cases transfer
      · rw [same.core]
        rfl
      · rw [status]
        decide
  | restart run => exact Replica.restart_polled run

/-- What a drain leaves, and asks. -/
theorem polled_drained {r r' : Replica SM} {asked : List (Nat × Nat)}
    {heard : List (Nat × Nat × Nat)} {drained : List (Envelope SM)} (polled : r.Polled asked heard)
    (core : r'.toCore = r.toCore)
    (queryState : r'.toQueryState = { r.toQueryState with roundUnsent := false })
    (fewer : ∀ envelope ∈ r'.queued, envelope ∈ r.queued)
    (yields : ∀ envelope ∈ drained, envelope ∈ r.queued) :
    r'.Polled (asks drained ++ asked) heard := by
  have seat : Replica.SameSeat r r' := .of_core core
  have round : r'.round = r.round := congrArg (·.round) queryState
  have confirmed : r'.confirmed = r.confirmed := congrArg (·.confirmed) queryState
  have roundConfirmed : r'.roundConfirmed = r.roundConfirmed :=
    congrArg (·.roundConfirmed) queryState
  have unsent : r'.roundUnsent = false := congrArg (·.roundUnsent) queryState
  obtain ⟨settled, fetches, waits, tally⟩ := polled
  refine ⟨?_, fetches.same ?_ ?_ ?_, ⟨?_, ?_, fun outside => ?_, fun status => ?_⟩,
    ⟨?_, ?_, fun envelope mem viewNumber asking isAsk => ?_, fun ask mem => ?_, ?_, ?_, ?_,
      fun confirmation mem => List.mem_append_right _ (tally.only confirmation mem)⟩⟩
  · unfold Replica.Settled
    rw [core]
    exact settled
  · rw [core]
  · rw [core]
  · rw [core]
  · rw [queryState, core]
    exact waits.inOrder.sent
  · rw [queryState, core]
    exact waits.unready
  · rw [seat.primary, seat.status] at outside
    have idle := waits.alone outside
    rw [queryState]
    exact ⟨idle.queries, idle.waiting, idle.round, idle.roundConfirmed, idle.confirmed, rfl⟩
  · rw [seat.primary]
    exact waits.behind (seat.status.symm.trans status)
  · rw [core]
    exact tally.several
  · rw [confirmed, core]
    exact tally.length
  · exact (tally.queued envelope (fewer envelope mem) viewNumber asking isAsk).same seat round.ge
  · refine ⟨?_, fun _ isUnsent => by cases unsent.symm.trans isUnsent⟩
    rcases List.mem_append.mp mem with new | old
    · obtain ⟨⟨replicaId, message⟩, isDrained, isAsk⟩ := List.mem_filterMap.mp new
      cases message with
      | confirmView viewNumber asking =>
          cases isAsk
          exact (tally.queued _ (yields _ isDrained) _ _ rfl).same seat round.ge
      | _ => cases isAsk
    · exact (tally.opens ask old).1.same seat round.ge
  · rw [confirmed, round, seat.selfId]
    exact tally.own
  · rw [confirmed, seat.view, seat.selfId]
    exact tally.others
  · rw [roundConfirmed, confirmed, seat.config]
    exact tally.mark

theorem polled_step (polled : p.replica.Polled p.asked p.heard) (step : Step p p') :
    p'.replica.Polled p'.asked p'.heard := by
  cases step with
  | @message r message fair run =>
      have others : (∀ viewNumber round j, message ≠ .confirmViewOk viewNumber round j) →
          r.Polled p.asked p.heard := fun other => by
        have handles : Replica.Handles (· = message) p.replica r :=
          Replica.onMessage_handles run (Owner.quorum_two polled.tally.several) rfl polled.fetches
        exact polled.handles handles fun viewNumber round j same =>
          other viewNumber round j same.symm
      cases message with
      | confirmViewOk viewNumber round j =>
          exact polled.confirm (fair _ (List.mem_singleton_self _)) run
      | _ => exact others nofun
  | @idle r run =>
      have handles : Replica.Handles (fun _ => False) p.replica r := Replica.onIdle_handles run
      exact polled.handles handles fun _ _ _ => id
  | compact opNumber run =>
      rcases Replica.compact_effect run with rfl | ⟨_, _, _, _, _, rfl⟩
      · exact polled
      · exact polled.same polled.settled (polled.fetches.same rfl rfl rfl) ⟨rfl, rfl, rfl, rfl⟩ rfl rfl
          le_rfl rfl fun _ => .inl
  | @take r write run =>
      obtain ⟨_, run⟩ := require_eq_some.mp run
      obtain ⟨durable, _, run⟩ := Option.bind_eq_some_iff.mp run
      cases run
      refine polled.same polled.settled (polled.fetches.same rfl rfl rfl) ⟨rfl, rfl, rfl, rfl⟩ rfl rfl
        le_rfl rfl fun envelope mem => .inl ?_
      simp only [Replica.queued, List.mem_append] at mem ⊢
      tauto
  | @handBack r write run =>
      obtain ⟨outstanding, executed, _, _, moves, rfl⟩ := Replica.persisted_moves run
      have back : (p.replica.handedBack outstanding).Polled p.asked p.heard :=
        polled.same polled.settled (polled.fetches.same rfl rfl rfl) ⟨rfl, rfl, rfl, rfl⟩ rfl rfl le_rfl
          rfl fun _ => .inl
      have handles : Replica.Handles (fun _ => False) (p.replica.handedBack outstanding) executed :=
        .moves moves
      have ran := back.handles handles fun _ _ _ => id
      refine ran.same ran.settled (ran.fetches.same rfl rfl rfl) ⟨rfl, rfl, rfl, rfl⟩ rfl rfl le_rfl
        rfl fun envelope mem => .inl ?_
      simp only [Replica.queued, Replica.releaseWaiting, List.mem_append] at mem ⊢
      tauto
  | drainBeforePersist =>
      refine polled_drained polled rfl rfl (fun envelope mem => ?_) fun envelope mem => ?_
      · simp only [Replica.queued, Replica.drainMessagesBeforePersist, List.mem_append] at mem ⊢
        tauto
      · simp only [Replica.queued, Replica.drainMessagesBeforePersist, List.mem_append] at mem ⊢
        tauto
  | drain =>
      refine polled_drained polled rfl rfl (fun envelope mem => ?_) fun envelope mem => ?_
      · simp only [Replica.queued, Replica.drainMessages, List.mem_append] at mem ⊢
        tauto
      · simp only [Replica.queued, Replica.drainMessages, List.mem_append] at mem ⊢
        tauto
  | drainReplies =>
      exact polled.same polled.settled (polled.fetches.same rfl rfl rfl) ⟨rfl, rfl, rfl, rfl⟩ rfl rfl
        le_rfl rfl fun _ => .inl

theorem polled_reach (reach : Reach p) : p.replica.Polled p.asked p.heard := by
  induction reach with
  | start made => exact polled_start made
  | step _ step ih => exact polled_step ih step

/-! ## The queue and the rounds -/

/-- Whether a replica has confirmed a round, or a later one, in the primary's view:
the primary itself any round it has opened, the others those they were heard to. -/
def Confirmed (p : Poll SM) (round replicaId : Nat) : Prop :=
  round = 0 ∨ (replicaId = p.replica.selfId ∧ round ≤ p.replica.round) ∨
    ∃ confirmation ∈ p.heard, confirmation.1 = p.replica.viewNumber ∧
      round ≤ confirmation.2.1 ∧ confirmation.2.2 = replicaId

instance (p : Poll SM) (round replicaId : Nat) : Decidable (p.Confirmed round replicaId) :=
  inferInstanceAs (Decidable (_ ∨ _ ∨ _))

/-- How many replicas have confirmed a round. -/
def confirming (p : Poll SM) (round : Nat) : Nat :=
  (List.range p.replica.config.replicas.length).countP fun replicaId =>
    p.Confirmed round replicaId

/-- The marks the primary keeps are what it heard. -/
theorem reaching_confirming (polled : p.replica.Polled p.asked p.heard) (round : Nat) :
    Replica.reaching p.replica.confirmed round = p.confirming round := by
  have tally := polled.tally
  rw [Replica.reaching_places, tally.length]
  refine List.countP_congr fun j mem => ?_
  obtain ⟨mark, isMark⟩ : ∃ mark, p.replica.confirmed[j]? = some mark :=
    ⟨_, List.getElem?_eq_getElem (tally.length.symm ▸ List.mem_range.mp mem)⟩
  rw [isMark, Option.getD_some, decide_eq_true_eq, decide_eq_true_eq]
  by_cases own : j = p.replica.selfId
  · rw [own] at isMark
    rw [tally.own mark isMark]
    refine ⟨fun inside => .inr (.inl ⟨own, inside⟩), ?_⟩
    rintro (rfl | ⟨_, inside⟩ | ⟨⟨view, later, i⟩, isHeard, rfl, inside, _⟩)
    · exact Nat.zero_le _
    · exact inside
    · exact inside.trans ((tally.opens _ (tally.only _ isHeard)).1.2 rfl).2.2
  · obtain ⟨either, below⟩ := tally.others j mark own isMark
    constructor
    · intro inside
      rcases either with zero | isHeard
      · exact .inl (Nat.le_zero.mp (zero ▸ inside))
      · exact .inr (.inr ⟨_, isHeard, rfl, inside, rfl⟩)
    · rintro (rfl | ⟨same, _⟩ | ⟨⟨view, later, i⟩, isHeard, rfl, inside, rfl⟩)
      · exact Nat.zero_le _
      · exact absurd same own
      · exact inside.trans (below later isHeard)

/-- The queue and the rounds as they should be: the queries that wait are in order
and each once, none waits beyond the next round, and for that one only while every
round is out; a quorum has confirmed `roundConfirmed` and no later round; and a
normal primary leaves no query waiting that may go. -/
structure Orderly (p : Poll SM) : Prop where
  ordered : p.replica.queries.Pairwise fun a b => a.round ≤ b.round ∧ a.opNumber ≤ b.opNumber
  distinct : (p.replica.queries.map WaitingQuery.key).Nodup
  waiting : p.replica.waiting = (p.replica.queries.map WaitingQuery.key).toFinset
  behind : p.replica.roundConfirmed ≤ p.replica.round
  bounded : p.replica.round ≤ p.replica.roundConfirmed + roundsOut
  next : ∀ query ∈ p.replica.queries, query.round ≤ p.replica.round + 1 ∧
    (query.round = p.replica.round + 1 → p.replica.round = p.replica.roundConfirmed + roundsOut)
  confirmed : IsGreatest { round | p.replica.config.quorum ≤ p.confirming round }
    p.replica.roundConfirmed
  ready : p.replica.isPrimary → p.replica.status = .normal → ∀ query ∈ p.replica.queries,
    ¬(query.round ≤ p.replica.roundConfirmed ∧ query.opNumber ≤ p.replica.applied)

theorem queries_orderly (reach : Reach p) : p.Orderly := by
  have polled := polled_reach reach
  have inOrder := polled.waits.inOrder
  refine ⟨inOrder.ordered, inOrder.distinct, inOrder.waiting, inOrder.behind, inOrder.bounded,
    fun query mem => ?_, ?_, fun _ _ query mem ready => ?_⟩
  · rcases inOrder.next query mem with inside | ⟨next, out, _⟩
    · exact ⟨inside.trans (Nat.le_succ _), fun next => absurd inside (by omega)⟩
    · exact ⟨next.le, fun _ => out⟩
  · have counts := polled.tally.enough
    rw [polled.tally.mark]
    simpa only [reaching_confirming polled] using
      Replica.quorumMark_greatest (Nat.zero_lt_two.trans_le counts.1) counts.2
  · rcases polled.waits.unready query mem with waits | waits
    · exact absurd ready.1 (not_le.mpr waits)
    · exact absurd ready.2 (not_le.mpr waits)

/-- A primary asked two queries, with the round of the first confirmed and that of
the second not yet asked for. -/
def queried : Option (Poll Accumulator) := do
  let made ← Replica.new 0 Accumulator.config .new
  let first ← made.onMessage (.query 5 1 ())
  let sent := first.drainMessagesBeforePersist.1
  let second ← sent.onMessage (.query 6 1 ())
  let answered ← second.onMessage (.confirmViewOk 0 1 2)
  some ⟨answered, asks first.drainMessagesBeforePersist.2, [(0, 1, 2)]⟩

theorem queried_reach {p : Poll Accumulator} (run : queried = some p) : Reach p := by
  unfold queried at run
  obtain ⟨made, isMade, run⟩ := Option.bind_eq_some_iff.mp run
  obtain ⟨first, isFirst, run⟩ := Option.bind_eq_some_iff.mp run
  obtain ⟨second, isSecond, run⟩ := Option.bind_eq_some_iff.mp run
  obtain ⟨answered, isAnswered, run⟩ := Option.bind_eq_some_iff.mp run
  cases run
  have asks : (0, 1) ∈ asks first.drainMessagesBeforePersist.2 := by
    cases isMade
    cases isFirst
    decide
  have start : Reach ⟨made, [], []⟩ := .start (.new isMade)
  have asked : Reach ⟨first, [], []⟩ :=
    .step start (.message (.query 5 1 ()) (fun _ mem => by cases mem) isFirst)
  have drained : Reach ⟨first.drainMessagesBeforePersist.1,
      Poll.asks first.drainMessagesBeforePersist.2, []⟩ := by
    rw [← List.append_nil (Poll.asks _)]
    exact .step asked .drainBeforePersist
  have again : Reach ⟨second, Poll.asks first.drainMessagesBeforePersist.2, []⟩ :=
    .step drained (.message (.query 6 1 ()) (fun _ mem => by cases mem) isSecond)
  refine .step again (.message (.confirmViewOk 0 1 2) (fun confirmation mem => ?_) isAnswered)
  cases List.mem_singleton.mp mem
  exact asks

theorem queries_orderly_queried : ∃ p, queried = some p ∧ p.replica.queries.length = 1 ∧
    p.Orderly := by
  obtain ⟨p, isQueried, one⟩ : ∃ p, queried = some p ∧ p.replica.queries.length = 1 :=
    ⟨_, rfl, rfl⟩
  exact ⟨p, isQueried, one, queries_orderly (queried_reach isQueried)⟩

end Poll

end Vsr
