import Vsr.Replica.Driven

/-!
# What each move leaves alone

Committing and executing change the counts of what is committed and executed, and
what the replica knows of the clients; the state machine is called for one entry
after the other.
-/

set_option autoImplicit false

namespace Vsr.Replica

open Relation (ReflTransGen)

variable {SM : Type} [StateMachine SM] {r r' : Replica SM}

/-! ## Executing and committing -/

/-- `r'` is `r` but for what committing and executing change. -/
structure Executed (r r' : Replica SM) : Prop where
  core : r'.toCore = { r.toCore with
    commitNumber := r'.commitNumber, applied := r'.applied, replyRanges := r'.replyRanges }
  timers : r'.toTimers = r.toTimers
  early : r'.outboxEarly = r.outboxEarly
  outbox : r'.outbox = r.outbox
  waiting : r'.outboxWaiting = r.outboxWaiting
  ready : r'.outboxReady = r.outboxReady
  more : r.applied ≤ r'.applied
  commits : r.commitNumber ≤ r'.commitNumber
  bounded : r'.applied = r.applied ∨ r'.applied ≤ r'.commitNumber

theorem Executed.refl (r : Replica SM) : Executed r r :=
  ⟨rfl, rfl, rfl, rfl, rfl, rfl, le_rfl, le_rfl, .inl rfl⟩

theorem applyNext_same (run : r.applyNext = some r') :
    r'.toCore = { r.toCore with applied := r.applied + 1 } ∧ r'.toTimers = r.toTimers ∧
      r'.toQueryState = r.toQueryState ∧ r'.outboxEarly = r.outboxEarly ∧
      r'.outbox = r.outbox ∧ r'.outboxWaiting = r.outboxWaiting ∧
      r'.outboxReady = r.outboxReady := by
  obtain ⟨executed, reply, entry, execution, _, rfl⟩ := applyNext_eq run
  have same := execute_same execution
  refine ⟨?_, same.timers, same.queryState, ?_, ?_, ?_, ?_⟩
  · show { executed.toCore with applied := r.applied + 1 } = _
    rw [same.core]
  all_goals
    dsimp only
    rw [same.outboxes]

theorem applyMany_same {count : Nat} (run : applyMany count r = some r') :
    r'.toCore = { r.toCore with applied := r.applied + count } ∧ r'.toTimers = r.toTimers ∧
      r'.toQueryState = r.toQueryState ∧ r'.outboxEarly = r.outboxEarly ∧
      r'.outbox = r.outbox ∧ r'.outboxWaiting = r.outboxWaiting ∧
      r'.outboxReady = r.outboxReady := by
  induction count generalizing r with
  | zero =>
      cases run
      exact ⟨rfl, rfl, rfl, rfl, rfl, rfl, rfl⟩
  | succ count ih =>
      obtain ⟨next, first, rest⟩ := Option.bind_eq_some_iff.mp run
      obtain ⟨core, timers, queries, early, outbox, waiting, ready⟩ := applyNext_same first
      obtain ⟨core', timers', queries', early', outbox', waiting', ready'⟩ := ih rest
      refine ⟨?_, timers'.trans timers, queries'.trans queries, early'.trans early,
        outbox'.trans outbox, waiting'.trans waiting, ready'.trans ready⟩
      rw [core', core]
      simp only [Core.mk.injEq, Standing.mk.injEq, true_and, and_true]
      omega

theorem answerQueries_outboxes (r : Replica SM) (queries : List (WaitingQuery (Query SM))) :
    (r.answerQueries queries).outboxEarly = r.outboxEarly ∧
      (r.answerQueries queries).outbox = r.outbox ∧
      (r.answerQueries queries).outboxWaiting = r.outboxWaiting ∧
      (r.answerQueries queries).outboxReady = r.outboxReady := by
  induction queries generalizing r with
  | nil => exact ⟨rfl, rfl, rfl, rfl⟩
  | cons query rest ih =>
      unfold answerQueries
      split
      · exact ⟨rfl, rfl, rfl, rfl⟩
      · exact ih _

theorem executeQueries_outboxes (r : Replica SM) :
    r.executeQueries.outboxEarly = r.outboxEarly ∧ r.executeQueries.outbox = r.outbox ∧
      r.executeQueries.outboxWaiting = r.outboxWaiting ∧
      r.executeQueries.outboxReady = r.outboxReady := by
  unfold executeQueries
  split
  · exact answerQueries_outboxes r r.queries
  · exact ⟨rfl, rfl, rfl, rfl⟩

theorem executeQueries_none (none : r.queries = []) : r.executeQueries = r := by
  unfold executeQueries
  split
  · rw [none, answerQueries, ← none]
  · rfl

/-- `apply_committed` executes entries, trims the ranges to reply to, and answers
queries. -/
theorem applyCommitted_eq {durable : Nat} (run : r.applyCommitted durable = some r') :
    ∃ many, applyMany (min r.commitNumber durable - r.applied) r = some many ∧
      r' = { many with
        replyRanges := many.replyRanges.filter fun range => many.applied < range.2
      }.executeQueries := by
  unfold applyCommitted at run
  obtain ⟨many, execution, run⟩ := Option.bind_eq_some_iff.mp run
  refine ⟨many, execution, ?_⟩
  cases run
  split
  · next none => exact (executeQueries_none none).symm
  · rfl

theorem applyCommitted_executed {durable : Nat} (run : r.applyCommitted durable = some r') :
    Executed r r' ∧ r'.commitNumber = r.commitNumber ∧
      r'.applied = r.applied + (min r.commitNumber durable - r.applied) := by
  obtain ⟨many, execution, rfl⟩ := applyCommitted_eq run
  obtain ⟨core, timers, _, early, outbox, waiting, ready⟩ := applyMany_same execution
  set trimmed : Replica SM := { many with
    replyRanges := many.replyRanges.filter fun range => many.applied < range.2 } with isTrimmed
  have same := executeQueries_same trimmed
  obtain ⟨early', outbox', waiting', ready'⟩ := executeQueries_outboxes trimmed
  have trimmedCore : trimmed.toCore = { r.toCore with
      applied := r.applied + (min r.commitNumber durable - r.applied)
      replyRanges := trimmed.replyRanges } := by
    show { many.toCore with replyRanges := trimmed.replyRanges } = _
    rw [core]
  have applied : trimmed.executeQueries.applied =
      r.applied + (min r.commitNumber durable - r.applied) := by
    rw [same.core, trimmedCore]
  have committed : trimmed.executeQueries.commitNumber = r.commitNumber := by
    rw [same.core, trimmedCore]
  refine ⟨⟨?_, same.timers.trans timers, early'.trans early, outbox'.trans outbox,
    waiting'.trans waiting, ready'.trans ready, ?_, committed.ge, ?_⟩, committed, applied⟩
  · rw [same.core, trimmedCore]
  · rw [applied]
    exact Nat.le_add_right _ _
  · rw [applied, committed]
    omega

theorem commitUpTo_executed {commitNumber : Nat} {reply : Bool}
    (run : r.commitUpTo commitNumber reply = some r') : Executed r r' := by
  unfold commitUpTo at run
  split at run
  · cases run
    exact .refl r
  · next new =>
    obtain ⟨durable, _, run⟩ := Option.bind_eq_some_iff.mp run
    obtain ⟨executed, _⟩ := applyCommitted_executed run
    have more : r.commitNumber ≤ r'.commitNumber :=
      (Nat.le_of_lt (not_le.mp new)).trans executed.commits
    refine ⟨?_, executed.timers, executed.early, executed.outbox, executed.waiting, executed.ready,
      executed.more, more, executed.bounded⟩
    rw [executed.core]

/-! ## The log -/

/-- `r'` is `r` but for its log and what it knows of the clients. -/
structure Logged (r r' : Replica SM) (standing : Standing (Input SM)) (writes : WriteState) : Prop where
  core : r'.toCore = { r.toCore with toStanding := standing, toWriteState := writes }
  machine : r'.stateMachine = r.stateMachine
  queryState : r'.toQueryState = r.toQueryState
  timers : r'.toTimers = r.toTimers
  outboxes : r'.toOutboxes = r.toOutboxes

theorem rebuildPending_machine (run : r.rebuildPending = some r') :
    r'.stateMachine = r.stateMachine := by
  unfold rebuildPending at run
  obtain ⟨skip, _, run⟩ := Option.bind_eq_some_iff.mp run
  obtain ⟨_, run⟩ := require_eq_some.mp run
  cases run
  rfl

theorem mergeLog_logged {start : Nat} {entries : List (EntryFor SM)}
    (run : r.mergeLog start entries = some r') :
    Logged r r' (r.toStanding.merged start entries)
      (r.toWriteState.markLogChanged (r.keepUpTo start + 1)) := by
  obtain ⟨_, run⟩ := require_eq_some.mp run
  obtain ⟨_, run⟩ := require_eq_some.mp run
  obtain ⟨_, run⟩ := require_eq_some.mp run
  have same := rebuildPending_same run
  have machine := rebuildPending_machine run
  exact ⟨same.core, machine, same.queryState, same.timers, same.outboxes⟩

/-! ## Checkpoints -/

theorem stopServing_same (r : Replica SM) :
    r.stopServing.toCore = { r.toCore with serving := none } ∧
      r.stopServing.toQueryState = r.toQueryState ∧ r.stopServing.toTimers = r.toTimers ∧
      r.stopServing.toOutboxes = r.toOutboxes := by
  unfold stopServing
  split
  · exact ⟨rfl, rfl, rfl, rfl⟩
  · next free =>
    rw [Bool.not_eq_true, Option.isSome_eq_false_iff, Option.isNone_iff_eq_none] at free
    refine ⟨?_, rfl, rfl, rfl⟩
    rw [← free]

/-- What restoring a checkpoint leaves. -/
theorem restoreCheckpoint_effect {opNumber : Nat} (run : r.restoreCheckpoint opNumber = some r') :
    r.commitNumber < opNumber ∧
      r'.toCore = { r.toCore with
        toStanding := r.toStanding.restoredAt opNumber
        toWriteState := r.toWriteState.markLogChanged (opNumber + 1)
        replyRanges := []
        serving := none } ∧
      r'.stateMachine = StateMachine.restore r.stopServing.stateMachine opNumber ∧
      r'.toQueryState = r.toQueryState ∧ r'.toTimers = r.toTimers ∧
      r'.toOutboxes = r.toOutboxes := by
  obtain ⟨beyond, run⟩ := require_eq_some.mp run
  have same := rebuildPending_same run
  have machine := rebuildPending_machine run
  obtain ⟨core, queries, timers, outboxes⟩ := stopServing_same r
  refine ⟨beyond, ?_, machine, same.queryState.trans queries,
    same.timers.trans timers, same.outboxes.trans outboxes⟩
  rw [same.core]
  show { r.stopServing.toCore with
    toStanding := r.toStanding.restoredAt opNumber
    toWriteState := r.toWriteState.markLogChanged (opNumber + 1)
    replyRanges := [] } = _
  rw [core]

/-- What keeping a checkpoint leaves. -/
theorem keepCheckpoint_effect {opNumber : Nat} (run : r.keepCheckpoint = some (r', opNumber)) :
    (r' = r ∧ r.serving.map Prod.fst = some opNumber) ∨
      (r.serving = none ∧ opNumber = (StateMachine.checkpoint r.stateMachine).2 ∧
        r.logStart ≤ opNumber ∧ opNumber ≤ r.applied ∧
        r' = { r with
          stateMachine := (StateMachine.checkpoint r.stateMachine).1
          serving := some (opNumber, 0) }) := by
  unfold keepCheckpoint at run
  split at run
  · next serving =>
    cases run
    exact .inl ⟨rfl, by rw [serving, Option.map_some]⟩
  · next free =>
    obtain ⟨⟨start, done⟩, run⟩ := require_eq_some.mp run
    cases run
    exact .inr ⟨free, rfl, start, done, rfl⟩

/-- Compaction drops entries that have executed, and none after the checkpoint
kept. -/
theorem compact_effect {opNumber : Nat} (run : r.compact opNumber = some r') :
    r' = r ∨ ∃ bound, r.logStart < bound ∧ bound ≤ r.applied ∧
      (∀ kept, r.serving.map Prod.fst = some kept → bound ≤ kept) ∧
      bound - r.logStart ≤ r.log.length ∧
      r' = { r with log := r.log.drop (bound - r.logStart), logStart := bound } := by
  have bounds : ∀ bound, bound ≤ r.applied →
      (∀ kept, r.serving.map Prod.fst = some kept → bound ≤ kept) →
      (if bound ≤ r.logStart then some r
        else require (bound - r.logStart ≤ r.log.length) <|
          some { r with log := r.log.drop (bound - r.logStart), logStart := bound }) = some r' →
      r' = r ∨ ∃ bound, r.logStart < bound ∧ bound ≤ r.applied ∧
        (∀ kept, r.serving.map Prod.fst = some kept → bound ≤ kept) ∧
        bound - r.logStart ≤ r.log.length ∧
        r' = { r with log := r.log.drop (bound - r.logStart), logStart := bound } := by
    intro bound done kept run
    split at run
    · cases run
      exact .inl rfl
    · next beyond =>
      obtain ⟨inside, run⟩ := require_eq_some.mp run
      cases run
      exact .inr ⟨bound, not_le.mp beyond, done, kept, inside, rfl⟩
  unfold compact at run
  cases serving : r.serving with
  | none =>
      rw [serving] at run bounds
      exact bounds _ (min_le_right _ _) (fun _ isKept => by cases isKept) run
  | some checkpoint =>
      rw [serving] at run bounds
      refine bounds _ ((min_le_left _ _).trans (min_le_right _ _)) ?_ run
      rintro kept ⟨⟩
      exact min_le_right _ _

/-! ## Rounds of view confirmations -/

/-- What `start_round` leaves: the round is open, and the others are asked. -/
theorem startRound_effect (run : r.startRound = some r') :
    r.selfId < r.confirmed.length ∧ r'.toCore = r.toCore ∧ r'.toClientTable = r.toClientTable ∧
      r'.toTimers = r.toTimers ∧
      r'.toQueryState = { r.toQueryState with
        round := r.round + 1, roundUnsent := true
        confirmed := r.confirmed.set r.selfId (r.round + 1) } ∧
      r'.outboxEarly = r.outboxEarly ++ r.others.map (fun replicaId =>
        (replicaId, Message.confirmView r.viewNumber (r.round + 1))) ∧
      r'.outbox = r.outbox ∧ r'.outboxWaiting = r.outboxWaiting ∧
      r'.outboxReady = r.outboxReady ∧ r'.replies = r.replies := by
  obtain ⟨inside, run⟩ := require_eq_some.mp run
  cases run
  set opened : Replica SM := { r with
    round := r.round + 1, roundUnsent := true
    confirmed := r.confirmed.set r.selfId (r.round + 1) } with isOpened
  have same := sendToOthers_same opened (.confirmView opened.viewNumber opened.round)
  have queues : ∀ (ids : List Nat) (s : Replica SM),
      (s.sendEach ids (.confirmView r.viewNumber (r.round + 1))).outboxEarly =
        s.outboxEarly ++ ids.map (fun replicaId =>
          (replicaId, Message.confirmView r.viewNumber (r.round + 1))) ∧
      (s.sendEach ids (.confirmView r.viewNumber (r.round + 1))).outbox = s.outbox ∧
      (s.sendEach ids (.confirmView r.viewNumber (r.round + 1))).outboxWaiting = s.outboxWaiting ∧
      (s.sendEach ids (.confirmView r.viewNumber (r.round + 1))).outboxReady = s.outboxReady := by
    intro ids
    induction ids with
    | nil =>
        intro s
        exact ⟨(List.append_nil _).symm, rfl, rfl, rfl⟩
    | cons replicaId rest ih =>
        intro s
        obtain ⟨early, outbox, waiting, ready⟩ :=
          ih (s.send replicaId (.confirmView r.viewNumber (r.round + 1)))
        refine ⟨early.trans ?_, outbox, waiting, ready⟩
        show s.outboxEarly ++ [(replicaId, Message.confirmView r.viewNumber (r.round + 1))] ++ _ = _
        rw [List.append_assoc]
        rfl
  obtain ⟨early, outbox, waiting, ready⟩ := queues r.others opened
  exact ⟨inside, same.core, same.clientTable, same.timers, same.queryState, early, outbox, waiting,
    ready, same.replies⟩

/-- The round a query waits for, and what asking for it leaves. -/
theorem roundForQuery_cases {round : Nat} (run : r.roundForQuery = some (r', round)) :
    (r.roundUnsent = true ∧ r' = r ∧ round = r.round) ∨
      (r.roundUnsent = false ∧ r.roundConfirmed ≤ r.round ∧
        r.round - r.roundConfirmed < roundsOut ∧ r.startRound = some r' ∧ round = r.round + 1) ∨
      (r.roundUnsent = false ∧ r.roundConfirmed + roundsOut ≤ r.round ∧ r' = r ∧
        round = r.round + 1) := by
  unfold roundForQuery at run
  split at run
  · next unsent =>
    cases run
    exact .inl ⟨unsent, rfl, rfl⟩
  · next sent =>
    rw [Bool.not_eq_true] at sent
    obtain ⟨out, sub, run⟩ := Option.bind_eq_some_iff.mp run
    obtain ⟨le, rfl⟩ := checkedSub_eq_some.mp sub
    split at run
    · next room =>
      obtain ⟨opened, start, run⟩ := Option.bind_eq_some_iff.mp run
      cases run
      obtain ⟨_, _, _, _, queries, _⟩ := startRound_effect start
      refine .inr (.inl ⟨sent, le, room, start, ?_⟩)
      exact congrArg (·.round) queries
    · next full =>
      cases run
      refine .inr (.inr ⟨sent, ?_, rfl, rfl⟩)
      omega

/-- A query that is taken waits, for a round and for the ops that may have
completed. -/
theorem onQuery_cases {clientId queryNumber : Nat} {query : Query SM}
    (run : r.onQuery clientId queryNumber query = some r') :
    r' = r ∨ (r.isPrimary ∧ r.status = .normal ∧ (clientId, queryNumber) ∉ r.waiting ∧
      ∃ asked round,
        { r with waiting := insert (clientId, queryNumber) r.waiting }.roundForQuery =
          some (asked, round) ∧
        r' = { asked with
          queries := asked.queries ++
            [{ clientId := clientId, queryNumber := queryNumber, query := query
               opNumber := max asked.commitNumber asked.viewStartOp, round := round }] }) := by
  unfold onQuery at run
  split at run
  · cases run
    exact .inl rfl
  · next takes =>
    simp only [not_or, not_not] at takes
    obtain ⟨⟨asked, round⟩, ask, run⟩ := Option.bind_eq_some_iff.mp run
    cases run
    exact .inr ⟨takes.1, takes.2.1, takes.2.2, asked, round, ask, rfl⟩

/-- A confirmation counts for a round that is open; one that makes a quorum may
open the next round, and lets queries go. -/
theorem onConfirmViewOk_cases {viewNumber round replicaId : Nat}
    (run : r.onConfirmViewOk viewNumber round replicaId = some r') :
    (r' = r ∧ (viewNumber = r.viewNumber → r.isPrimary → r.status = .normal → round ≤ r.round →
        ∀ mark, r.confirmed[replicaId]? = some mark → round ≤ mark)) ∨
      (viewNumber = r.viewNumber ∧ r.isPrimary ∧ r.status = .normal ∧
      replicaId < r.confirmed.length ∧ round ≤ r.round ∧
      (r.confirmed[replicaId]?).getD 0 < round ∧
      ((quorumMark r.config.quorum (r.confirmed.set replicaId round) ≤ r.roundConfirmed ∧
          r' = { r with confirmed := r.confirmed.set replicaId round }) ∨
        (r.roundConfirmed < quorumMark r.config.quorum (r.confirmed.set replicaId round) ∧
          ∃ opened, { r with
              confirmed := r.confirmed.set replicaId round
              roundConfirmed := quorumMark r.config.quorum (r.confirmed.set replicaId round)
            }.startRoundIfAwaited = some opened ∧ r' = opened.executeQueries))) := by
  unfold onConfirmViewOk at run
  split at run
  · next ignored =>
    cases run
    refine .inl ⟨rfl, fun view primary status inside mark isMark => ?_⟩
    have there := (List.getElem?_eq_some_iff.mp isMark).1
    rw [isMark, Option.getD_some] at ignored
    simpa [view, primary, status, not_le.mpr there, not_lt.mpr inside] using ignored
  · next counts =>
    simp only [not_or, not_not, not_le, not_lt] at counts
    obtain ⟨view, primary, status, inside, isOpen, more⟩ := counts
    refine .inr ⟨view, primary, status, inside, isOpen, more, ?_⟩
    dsimp only at run
    split at run
    · next old =>
      cases run
      exact .inl ⟨old, rfl⟩
    · next new =>
      obtain ⟨opened, start, run⟩ := Option.map_eq_some_iff.mp run
      exact .inr ⟨not_le.mp new, opened, start, run.symm⟩

/-- `r'` is `r` but for its queries and the rounds it asks the others to confirm. -/
structure Queried (r r' : Replica SM) : Prop where
  core : r'.toCore = r.toCore
  clientTable : r'.toClientTable = r.toClientTable
  timers : r'.toTimers = r.toTimers
  early : ∀ envelope ∈ r'.outboxEarly, envelope ∈ r.outboxEarly ∨ envelope.2.early = true
  outbox : r'.outbox = r.outbox
  waiting : r'.outboxWaiting = r.outboxWaiting
  ready : r'.outboxReady = r.outboxReady

theorem startRound_queried (run : r.startRound = some r') : Queried r r' := by
  obtain ⟨_, core, table, timers, _, early, outbox, waiting, ready, _⟩ := startRound_effect run
  refine ⟨core, table, timers, fun envelope mem => ?_, outbox, waiting, ready⟩
  rw [early] at mem
  rcases List.mem_append.mp mem with old | new
  · exact .inl old
  · obtain ⟨replicaId, _, rfl⟩ := List.mem_map.mp new
    exact .inr rfl

theorem Queried.refl (r : Replica SM) : Queried r r :=
  ⟨rfl, rfl, rfl, fun _ mem => .inl mem, rfl, rfl, rfl⟩

theorem onQuery_queried {clientId queryNumber : Nat} {query : Query SM}
    (run : r.onQuery clientId queryNumber query = some r') : Queried r r' := by
  rcases onQuery_cases run with rfl | ⟨_, _, _, asked, round, ask, rfl⟩
  · exact .refl _
  · rcases roundForQuery_cases ask with ⟨_, rfl, _⟩ | ⟨_, _, _, start, _⟩ | ⟨_, _, rfl, _⟩
    · exact ⟨rfl, rfl, rfl, fun _ mem => .inl mem, rfl, rfl, rfl⟩
    · obtain ⟨core, table, timers, early, outbox, waiting, ready⟩ := startRound_queried start
      exact ⟨core, table, timers, early, outbox, waiting, ready⟩
    · exact ⟨rfl, rfl, rfl, fun _ mem => .inl mem, rfl, rfl, rfl⟩

theorem onConfirmViewOk_queried {viewNumber round replicaId : Nat}
    (run : r.onConfirmViewOk viewNumber round replicaId = some r') : Queried r r' := by
  rcases onConfirmViewOk_cases run with
    ⟨rfl, _⟩ | ⟨_, _, _, _, _, _, ⟨_, rfl⟩ | ⟨_, opened, start, rfl⟩⟩
  · exact .refl _
  · exact ⟨rfl, rfl, rfl, fun _ mem => .inl mem, rfl, rfl, rfl⟩
  · have opens : Queried r opened := by
      unfold startRoundIfAwaited at start
      split at start
      · obtain ⟨core, table, timers, early, outbox, waiting, ready⟩ := startRound_queried start
        exact ⟨core, table, timers, early, outbox, waiting, ready⟩
      · cases start
        exact ⟨rfl, rfl, rfl, fun _ mem => .inl mem, rfl, rfl, rfl⟩
    have answers := executeQueries_same opened
    obtain ⟨early, outbox, waiting, ready⟩ := executeQueries_outboxes opened
    refine ⟨answers.core.trans opens.core, answers.clientTable.trans opens.clientTable,
      answers.timers.trans opens.timers, fun envelope mem => ?_, outbox.trans opens.outbox,
      waiting.trans opens.waiting, ready.trans opens.ready⟩
    rw [early] at mem
    exact opens.early envelope mem

/-! ## Along the moves of a handler -/

/-- What every move and every message sent keeps, a handler keeps. -/
theorem Handles.induct {heard : MessageFor SM → Prop} (handles : Handles heard r r')
    {P : Replica SM → Prop} (start : P r)
    (move : ∀ {a b : Replica SM}, P a → Move heard a b → P b)
    (tell : ∀ {a b : Replica SM}, P a → Tell a b → P b) : P r' := by
  obtain ⟨moved, moves, tells⟩ := handles
  have along : ∀ m, ReflTransGen (Move heard) r m → P m := by
    intro m moves
    induction moves with
    | refl => exact start
    | tail _ step ih => exact move ih step
  induction tells with
  | refl => exact along moved moves
  | tail _ step ih => exact tell ih step

theorem Names.same {resume : Resume (Input SM)} (names : r.Names resume)
    (status : r'.status = r.status) (view : r'.viewNumber = r.viewNumber) : r'.Names resume :=
  ⟨status.trans_ne names.away, names.base, fun viewNumber state isResume => by
    rw [status, view]
    exact names.recovering viewNumber state isResume⟩

theorem Fetches.same (fetches : r.Fetches) (fetch : r'.fetch = r.fetch)
    (status : r'.status = r.status) (view : r'.viewNumber = r.viewNumber) : r'.Fetches := by
  intro next isNext
  rw [fetch] at isNext
  exact (fetches next isNext).same status view

theorem Fetches.quiet (fetches : r.Fetches) (same : Quiet r r') : r'.Fetches :=
  fetches.same same.fetch (by rw [same.standing]) (by rw [same.standing])

theorem Fetches.tell (fetches : r.Fetches) (tell : Tell r r') : r'.Fetches := by
  cases tell with
  | quiet same => exact fetches.quiet same
  | send replicaId message _ =>
      refine fetches.same ?_ ?_ ?_ <;> rw [send_toCore]

/-- A fetch goes on only with a message that named its checkpoint. -/
theorem Fetches.move {heard : MessageFor SM → Prop} (fetches : r.Fetches)
    (move : Move heard r r') : r'.Fetches := by
  cases move with
  | quiet same => exact fetches.quiet same
  | send replicaId message _ => refine fetches.same ?_ ?_ ?_ <;> rw [send_toCore]
  | supersede => exact fetches.same rfl rfl rfl
  | append entry => exact fetches.same rfl rfl rfl
  | merge run => refine fetches.same ?_ ?_ ?_ <;> rw [(mergeLog_logged run).core] <;> rfl
  | commit run => refine fetches.same ?_ ?_ ?_ <;> rw [(commitUpTo_executed run).core]
  | count run =>
      obtain ⟨_, _, ⟨_, rfl⟩ | ⟨_, run⟩⟩ := registerAck_cases run
      · exact fetches
      · refine fetches.same ?_ ?_ ?_ <;> rw [(commitUpTo_executed run).core]
  | apply _ run => refine fetches.same ?_ ?_ ?_ <;> rw [(applyCommitted_executed run).1.core]
  | enter viewNumber _ _ run => exact nofun
  | leave later => exact nofun
  | turn catchingUp later => exact nofun
  | transfer status =>
      intro fetch isFetch
      refine ⟨nofun, (fetches fetch isFetch).base, fun viewNumber state isResume => ?_⟩
      have recovering := ((fetches fetch isFetch).recovering viewNumber state isResume).1
      rcases status with ⟨normal, _⟩ | transfer
      · cases normal.symm.trans recovering
      · cases transfer.symm.trans recovering
  | rejoin transfer free =>
      intro fetch isFetch
      cases free.symm.trans isFetch
  | refetch becomes =>
      intro next isNext
      cases becomes with
      | drop => cases isNext
      | anew first names =>
          cases isNext
          exact names.same rfl rfl
      | goOn isFetch source index checkpoint names =>
          cases isNext
          rcases names with same | names
          · rw [same]
            exact (fetches _ isFetch).same rfl rfl
          · exact names.same rfl rfl
  | stage _ next timers isFetch =>
      intro later isLater
      cases isLater
      exact (fetches _ isFetch).same rfl rfl
  | rebuild run => refine fetches.same ?_ ?_ ?_ <;> rw [(rebuildPending_same run).core]
  | restore _ _ run =>
      obtain ⟨_, core, _⟩ := restoreCheckpoint_effect run
      refine fetches.same ?_ ?_ ?_ <;> rw [core] <;> rfl
  | keep run =>
      rcases keepCheckpoint_effect run with ⟨rfl, _⟩ | ⟨_, _, _, _, rfl⟩
      · exact fetches
      · exact fetches.same rfl rfl rfl
  | release => exact fetches.same rfl rfl rfl
  | query run => refine fetches.same ?_ ?_ ?_ <;> rw [(onQuery_queried run).core]
  | confirm _ run => refine fetches.same ?_ ?_ ?_ <;> rw [(onConfirmViewOk_queried run).core]

theorem Fetches.handles {heard : MessageFor SM → Prop} (fetches : r.Fetches)
    (handles : Handles heard r r') : r'.Fetches :=
  handles.induct fetches Fetches.move Fetches.tell

/-! ## Who the replica is -/

/-- `r'` is the same replica of the same cluster. -/
def Same (r r' : Replica SM) : Prop := r'.config = r.config ∧ r'.selfId = r.selfId

theorem Same.of_core (core : r'.toCore = r.toCore) : Same r r' := by
  constructor <;> rw [core]

theorem Move.same {heard : MessageFor SM → Prop} (move : Move heard r r') : Same r r' := by
  cases move with
  | quiet same => exact ⟨same.config, same.selfId⟩
  | send replicaId message _ => exact .of_core (send_toCore r replicaId message)
  | merge run =>
      have core := (mergeLog_logged run).core
      exact ⟨congrArg (·.config) core, congrArg (·.selfId) core⟩
  | commit run =>
      have core := (commitUpTo_executed run).core
      exact ⟨congrArg (·.config) core, congrArg (·.selfId) core⟩
  | count run =>
      obtain ⟨_, _, ⟨_, rfl⟩ | ⟨_, run⟩⟩ := registerAck_cases run
      · exact ⟨rfl, rfl⟩
      · have core := (commitUpTo_executed run).core
        exact ⟨congrArg (·.config) core, congrArg (·.selfId) core⟩
  | apply _ run =>
      have core := (applyCommitted_executed run).1.core
      exact ⟨congrArg (·.config) core, congrArg (·.selfId) core⟩
  | enter _ _ _ run =>
      have core := (commitUpTo_executed run).core
      exact ⟨congrArg (·.config) core, congrArg (·.selfId) core⟩
  | rebuild run => exact .of_core (rebuildPending_same run).core
  | restore _ _ run =>
      obtain ⟨_, core, _⟩ := restoreCheckpoint_effect run
      exact ⟨congrArg (·.config) core, congrArg (·.selfId) core⟩
  | keep run =>
      rcases keepCheckpoint_effect run with ⟨rfl, _⟩ | ⟨_, _, _, _, rfl⟩ <;> exact ⟨rfl, rfl⟩
  | query run => exact .of_core (onQuery_queried run).core
  | confirm _ run => exact .of_core (onConfirmViewOk_queried run).core
  | supersede | append | leave | turn | transfer | rejoin | refetch | stage | release =>
      exact ⟨rfl, rfl⟩

theorem Tell.same (tell : Tell r r') : Same r r' := by
  cases tell with
  | quiet same => exact ⟨same.config, same.selfId⟩
  | send replicaId message _ => exact .of_core (send_toCore r replicaId message)

theorem Handles.same {heard : MessageFor SM → Prop} (handles : Handles heard r r') : Same r r' :=
  handles.induct (P := fun m => Same r m) ⟨rfl, rfl⟩
    (fun before move => ⟨move.same.1.trans before.1, move.same.2.trans before.2⟩)
    fun before tell => ⟨tell.same.1.trans before.1, tell.same.2.trans before.2⟩

end Vsr.Replica
