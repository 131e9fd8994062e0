import Vsr.Protocol.LogMoves
import Vsr.Replica.Effects
import Vsr.Replica.Recorded

/-!
# What a replica calls its state machine for

An entry executes in one block of calls, the blocks of a step follow each other in
the order of the log, and every other call is for a checkpoint.
-/

set_option autoImplicit false

namespace Vsr

open Relation (ReflTransGen)

variable {SM : Type} [StateMachine SM]

/-- The calls that execute an entry at `opNumber`, from one state of the machine to
the next. -/
inductive Block (opNumber : Nat) : EntryFor SM → SM → SM → Prop
  | registered {clientId : Nat} {m : SM} (record : ClientRecord (Output SM)) :
      Block opNumber (.register clientId) m
        (StateMachine.recordClient m opNumber clientId (some record))
  /-- The registration evicts another session. -/
  | evicting {clientId : Nat} {m : SM} (evicted : Nat) (record : ClientRecord (Output SM)) :
      Block opNumber (.register clientId) m
        (StateMachine.recordClient (StateMachine.recordClient m opNumber evicted none) opNumber
          clientId (some record))
  /-- The request finds its session gone. -/
  | skipped {clientId session requestNumber answered : Nat} {op : Input SM} {m : SM}
      (record : Option (ClientRecord (Output SM))) :
      Block opNumber (.request clientId session requestNumber answered op) m
        (StateMachine.recordClient m opNumber clientId record)
  | ran {clientId session requestNumber answered : Nat} {op : Input SM} {m : SM}
      (record : ClientRecord (Output SM)) :
      Block opNumber (.request clientId session requestNumber answered op) m
        (StateMachine.recordClient (StateMachine.apply m opNumber op).1 opNumber clientId
          (some record))

/-- The entries after op `a`, one after the other up to op `b`, each one that `may`
execute. -/
inductive Blocks (may : Nat → EntryFor SM → Prop) : Nat → SM → Nat → SM → Prop
  | refl {a : Nat} {m : SM} : Blocks may a m a m
  | tail {a b : Nat} {m m' m'' : SM} {entry : EntryFor SM} (before : Blocks may a m b m')
      (allowed : may (b + 1) entry) (block : Block (b + 1) entry m' m'') :
      Blocks may a m (b + 1) m''

namespace Blocks

variable {may may' : Nat → EntryFor SM → Prop} {a b c : Nat} {m m' m'' : SM}

theorem trans (first : Blocks may a m b m') (rest : Blocks may b m' c m'') :
    Blocks may a m c m'' := by
  induction rest with
  | refl => exact first
  | tail _ allowed block ih => exact .tail (ih first) allowed block

theorem mono (blocks : Blocks may a m b m') (le : ∀ k entry, may k entry → may' k entry) :
    Blocks may' a m b m' := by
  induction blocks with
  | refl => exact .refl
  | tail _ allowed block ih => exact .tail ih (le _ _ allowed) block

theorem le (blocks : Blocks may a m b m') : a ≤ b := by
  induction blocks with
  | refl => exact le_rfl
  | tail _ _ _ ih => exact ih.trans (Nat.le_succ _)

end Blocks

namespace Replica

variable {heard : MessageFor SM → Prop} {r r' : Replica SM}

/-! ## Executing an entry -/

theorem evictedClient_machine {clientId : Nat} (run : r.evictedClient = some (clientId, r')) :
    r'.stateMachine = r.stateMachine := by
  unfold evictedClient at run
  split at run
  · cases run
    rfl
  · obtain ⟨scanned, scan, run⟩ := Option.bind_eq_some_iff.mp run
    obtain ⟨found, _, run⟩ := Option.bind_eq_some_iff.mp run
    cases run
    obtain ⟨_, scan⟩ := require_eq_some.mp scan
    cases scan
    rfl

theorem makeRoom_machine {opNumber : Nat} (run : r.makeRoom opNumber = some r') :
    r'.stateMachine = r.stateMachine ∨ ∃ evicted,
      r'.stateMachine = StateMachine.recordClient r.stateMachine opNumber evicted none := by
  unfold makeRoom at run
  split at run
  · unfold evict at run
    obtain ⟨⟨evicted, popped⟩, pop, run⟩ := Option.bind_eq_some_iff.mp run
    obtain ⟨sessions, _, run⟩ := Option.bind_eq_some_iff.mp run
    cases run
    refine .inr ⟨evicted, ?_⟩
    show StateMachine.recordClient popped.stateMachine opNumber evicted none = _
    rw [evictedClient_machine pop]
  · cases run
    exact .inl rfl

/-- `execute` calls the state machine for the entry it executes. -/
theorem execute_block {opNumber : Nat} {reply : Reply (Output SM)}
    (run : r.execute opNumber = some (r', reply)) :
    ∃ entry, r.entry opNumber = some entry ∧
      Block opNumber entry r.stateMachine r'.stateMachine := by
  obtain ⟨entry, isEntry, run⟩ := Option.bind_eq_some_iff.mp run
  refine ⟨entry, isEntry, ?_⟩
  cases entry with
  | register clientId =>
      simp only [register] at run
      split at run
      · cases run
        exact .registered _
      · obtain ⟨room, make, run⟩ := Option.map_eq_some_iff.mp run
        cases run
        show Block opNumber _ r.stateMachine
          (StateMachine.recordClient room.stateMachine opNumber clientId _)
        rcases makeRoom_machine make with same | ⟨evicted, isEvicted⟩
        · rw [show room.stateMachine = r.stateMachine from same]
          exact .registered _
        · rw [show room.stateMachine = _ from isEvicted]
          exact .evicting evicted _
  | request clientId session requestNumber answered op =>
      simp only [executeRequest] at run
      split at run
      · cases run
        exact .skipped _
      · obtain ⟨_, run⟩ := require_eq_some.mp run
        cases run
        exact .ran _

theorem applyNext_block (run : r.applyNext = some r') :
    ∃ entry, r.entry (r.applied + 1) = some entry ∧
      Block (r.applied + 1) entry r.stateMachine r'.stateMachine := by
  obtain ⟨executed, reply, _, execution, _, rfl⟩ := applyNext_eq run
  obtain ⟨entry, isEntry, block⟩ := execute_block execution
  exact ⟨entry, isEntry, block⟩

theorem applyMany_blocks {count : Nat} (run : applyMany count r = some r') :
    Blocks (fun k entry => r.entry k = some entry ∧ r.applied < k ∧ k ≤ r.applied + count)
      r.applied r.stateMachine r'.applied r'.stateMachine := by
  induction count generalizing r with
  | zero =>
      cases run
      exact .refl
  | succ count ih =>
      obtain ⟨next, first, rest⟩ := Option.bind_eq_some_iff.mp run
      obtain ⟨entry, isEntry, block⟩ := applyNext_block first
      have core := (applyNext_same first).1
      have applied : next.applied = r.applied + 1 := congrArg (·.applied) core
      have same : ∀ k, next.entry k = r.entry k := fun k => by rw [core]; rfl
      have blocks := ih rest
      rw [applied] at blocks
      refine .trans (.tail .refl ⟨isEntry, Nat.lt_succ_self _, by omega⟩ block)
        (blocks.mono fun k entry allowed => ?_)
      exact ⟨(same k).symm.trans allowed.1, by omega⟩

/-- An entry whose write has been handed back, as the log holds it now. -/
def Durable (r : Replica SM) (k : Nat) (entry : EntryFor SM) : Prop :=
  r.entry k = some entry ∧ ∃ durable, r.durableOp = some durable ∧ k ≤ durable

theorem Durable.same {k : Nat} {entry : EntryFor SM} (durable : r'.Durable k entry)
    (log : r'.log = r.log) (start : r'.logStart = r.logStart)
    (writes : r'.toWriteState = r.toWriteState) : r.Durable k entry := by
  unfold Durable at durable ⊢
  rw [writes] at durable
  refine ⟨?_, durable.2⟩
  have isEntry := durable.1
  unfold Standing.entry at isEntry ⊢
  rwa [log, start] at isEntry

theorem applyCommitted_blocks {durable : Nat} (isDurable : r.durableOp = some durable)
    (run : r.applyCommitted durable = some r') :
    Blocks r.Durable r.applied r.stateMachine r'.applied r'.stateMachine := by
  obtain ⟨many, execution, isResult⟩ := applyCommitted_eq run
  have same := executeQueries_same { many with
    replyRanges := many.replyRanges.filter fun range => many.applied < range.2 }
  have applied : r'.applied = many.applied := by rw [isResult, same.core]
  have machine : r'.stateMachine = many.stateMachine := by rw [isResult, same.clientTable]
  rw [applied, machine]
  refine (applyMany_blocks execution).mono fun k entry allowed => ⟨allowed.1, durable, isDurable, ?_⟩
  omega

theorem commitUpTo_blocks {commitNumber : Nat} {reply : Bool}
    (run : r.commitUpTo commitNumber reply = some r') :
    Blocks r.Durable r.applied r.stateMachine r'.applied r'.stateMachine := by
  unfold commitUpTo at run
  split at run
  · cases run
    exact .refl
  · obtain ⟨durable, isDurable, run⟩ := Option.bind_eq_some_iff.mp run
    exact (applyCommitted_blocks isDurable run).mono fun k entry allowed => allowed.same rfl rfl rfl

/-! ## The calls of a move -/

/-- What a move calls the state machine for, with the op it has executed up to then. -/
inductive Calls (heard : MessageFor SM → Prop) (r : Replica SM) : Nat → SM → Prop
  | none : Calls heard r r.applied r.stateMachine
  | execute {applied : Nat} {m : SM}
      (blocks : Blocks r.Durable r.applied r.stateMachine applied m) : Calls heard r applied m
  | keep : Calls heard r r.applied (StateMachine.checkpoint r.stateMachine).1
  | release : Calls heard r r.applied (StateMachine.releaseCheckpoint r.stateMachine)
  | stage {fetch : Fetch (Input SM)} {chunk : Chunk SM} {last : Bool} (isFetch : r.fetch = some fetch)
      (isHeard : heard (.newChunk fetch.source fetch.resume.checkpoint fetch.index chunk last)) :
      Calls heard r r.applied
        (StateMachine.stageChunk r.stateMachine fetch.resume.checkpoint fetch.index chunk)
  /-- A checkpoint kept is dropped first. -/
  | restore {source opNumber index : Nat} {chunk : Chunk SM}
      (isHeard : heard (.newChunk source opNumber index chunk true))
      (beyond : r.commitNumber < opNumber) :
      Calls heard r opNumber (StateMachine.restore r.stopServing.stateMachine opNumber)

theorem Move.calls (move : Move heard r r') : Calls heard r r'.applied r'.stateMachine := by
  have still : r'.applied = r.applied → r'.stateMachine = r.stateMachine →
      Calls heard r r'.applied r'.stateMachine := by
    intro applied machine
    rw [applied, machine]
    exact .none
  cases move with
  | quiet same =>
      refine still (by rw [same.standing]) ?_
      exact congrArg (·.stateMachine) same.clientTable
  | send replicaId message _ =>
      refine still (by rw [send_toCore]) ?_
      exact congrArg (·.stateMachine) (send_toClientTable r replicaId message)
  | merge run =>
      have logged := mergeLog_logged run
      exact still (by rw [logged.core]; rfl) logged.machine
  | commit run => exact .execute (commitUpTo_blocks run)
  | count run =>
      obtain ⟨_, _, ⟨_, rfl⟩ | ⟨_, run⟩⟩ := registerAck_cases run
      · exact .none
      · exact .execute ((commitUpTo_blocks run).mono fun k entry allowed => allowed.same rfl rfl rfl)
  | apply isDurable run => exact .execute (applyCommitted_blocks isDurable run)
  | @enter m viewNumber _ _ later outside run =>
      exact .execute ((commitUpTo_blocks run).mono fun k entry allowed => allowed.same rfl rfl rfl)
  | stage isHeard next timers isFetch => exact .stage isFetch isHeard
  | rebuild run =>
      exact still (by rw [(rebuildPending_same run).core]) (rebuildPending_machine run)
  | restore isHeard _ run =>
      obtain ⟨beyond, core, machine, _⟩ := restoreCheckpoint_effect run
      have applied := congrArg (·.applied) core
      rw [machine, show r'.applied = _ from applied]
      exact .restore isHeard beyond
  | keep run =>
      rcases keepCheckpoint_effect run with ⟨rfl, _⟩ | ⟨_, _, _, _, rfl⟩
      · exact .none
      · exact .keep
  | release => exact .release
  | query run =>
      have queried := onQuery_queried run
      refine still (by rw [queried.core]) ?_
      exact congrArg (·.stateMachine) queried.clientTable
  | confirm _ run =>
      have queried := onConfirmViewOk_queried run
      refine still (by rw [queried.core]) ?_
      exact congrArg (·.stateMachine) queried.clientTable
  | supersede | append | leave | turn | transfer | rejoin | refetch => exact still rfl rfl

theorem Tell.machine (tell : Tell r r') :
    r'.applied = r.applied ∧ r'.stateMachine = r.stateMachine := by
  cases tell with
  | quiet same =>
      exact ⟨by rw [same.standing], congrArg (·.stateMachine) same.clientTable⟩
  | send replicaId message _ =>
      exact ⟨by rw [send_toCore], congrArg (·.stateMachine) (send_toClientTable r replicaId message)⟩

/-! ## The log of a move -/

theorem Executed.logMove (executed : Executed r r') : LogMove r.peer r'.peer := by
  refine .stay ?_ ?_ ?_ executed.more executed.commits executed.bounded
  · exact congrArg (·.log) executed.core
  · exact congrArg (·.logStart) executed.core
  · exact congrArg (·.toWriteState) executed.core

/-- What a move does to the log. -/
theorem Move.logMoves (move : Move heard r r') : ReflTransGen LogMove r.peer r'.peer := by
  have still : r'.toCore = r.toCore → ReflTransGen LogMove r.peer r'.peer := by
    intro core
    unfold Replica.peer
    rw [core]
  cases move with
  | quiet same =>
      refine .single (.quiet ?_ ?_ ?_ ?_ ?_)
      · exact congrArg (·.log) same.standing
      · exact congrArg (·.logStart) same.standing
      · exact same.writes
      · exact congrArg (·.applied) same.standing
      · exact congrArg (·.commitNumber) same.standing
  | send replicaId message _ => exact still (send_toCore r replicaId message)
  | append entry => exact .single (.append entry)
  | @merge _ start entries run =>
      obtain ⟨mergeable, peer, _⟩ := mergeLog_peer run
      rw [peer]
      exact .single (.merge start entries mergeable)
  | commit run => exact .single (commitUpTo_executed run).logMove
  | @count _ replicaId opNumber run =>
      obtain ⟨_, _, ⟨_, rfl⟩ | ⟨_, run⟩⟩ := registerAck_cases run
      · exact .refl
      · have marks : LogMove r.peer (Replica.peer { r with
            acked := r.acked.set replicaId (min opNumber r.opNumber) }) :=
          .quiet rfl rfl rfl rfl rfl
        exact .head marks (.single (commitUpTo_executed run).logMove)
  | apply _ run => exact .single (applyCommitted_executed run).1.logMove
  | @enter m viewNumber _ _ later outside run =>
      have executed := (commitUpTo_executed run).logMove
      have turned : LogMove r.peer (Replica.peer { r with viewNumber := viewNumber }) :=
        .quiet rfl rfl rfl rfl rfl
      have entered : LogMove m.peer m.enterNormal.peer := .quiet rfl rfl rfl rfl rfl
      exact .head turned (.head executed (.single entered))
  | rebuild run => exact still (rebuildPending_same run).core
  | restore _ _ run =>
      obtain ⟨beyond, core, _⟩ := restoreCheckpoint_effect run
      refine .head (.restore _ beyond) (.single (.quiet ?_ ?_ ?_ ?_ ?_))
      · exact congrArg (·.log) core
      · exact congrArg (·.logStart) core
      · exact congrArg (·.toWriteState) core
      · exact congrArg (·.applied) core
      · exact congrArg (·.commitNumber) core
  | keep run =>
      rcases keepCheckpoint_effect run with ⟨rfl, _⟩ | ⟨_, _, _, _, rfl⟩
      · exact .refl
      · exact .single (.quiet rfl rfl rfl rfl rfl)
  | query run => exact still (onQuery_queried run).core
  | confirm _ run => exact still (onConfirmViewOk_queried run).core
  | supersede | leave | turn | transfer | rejoin | refetch | stage | release =>
      exact .single (.quiet rfl rfl rfl rfl rfl)

theorem Tell.core_same (tell : Tell r r') : LogMove r.peer r'.peer := by
  cases tell with
  | quiet same =>
      refine .quiet ?_ ?_ ?_ ?_ ?_
      · exact congrArg (·.log) same.standing
      · exact congrArg (·.logStart) same.standing
      · exact same.writes
      · exact congrArg (·.applied) same.standing
      · exact congrArg (·.commitNumber) same.standing
  | send replicaId message _ =>
      unfold Replica.peer
      rw [send_toCore]
      exact .quiet rfl rfl rfl rfl rfl

end Replica

/-! ## Recorded calls -/

/-- The calls recorded while an entry executes. -/
inductive Runs (opNumber : Nat) : List (MachineCall SM) → EntryFor SM → Prop
  | registered {clientId : Nat} (record : ClientRecord (Output SM)) :
      Runs opNumber [.recordClient opNumber clientId (some record)] (.register clientId)
  | evicting {clientId : Nat} (evicted : Nat) (record : ClientRecord (Output SM)) :
      Runs opNumber
        [.recordClient opNumber evicted none, .recordClient opNumber clientId (some record)]
        (.register clientId)
  | skipped {clientId session requestNumber answered : Nat} {op : Input SM}
      (record : Option (ClientRecord (Output SM))) :
      Runs opNumber [.recordClient opNumber clientId record]
        (.request clientId session requestNumber answered op)
  | ran {clientId session requestNumber answered : Nat} {op : Input SM}
      (record : ClientRecord (Output SM)) :
      Runs opNumber [.apply opNumber op, .recordClient opNumber clientId (some record)]
        (.request clientId session requestNumber answered op)

theorem Block.recorded {opNumber : Nat} {entry : EntryFor (Recorded SM)} {m m' : Recorded SM}
    (block : Block opNumber entry m m') :
    ∃ calls : List (MachineCall SM), m'.calls = m.calls ++ calls ∧ Runs opNumber calls entry := by
  cases block with
  | registered record => exact ⟨_, rfl, by constructor⟩
  | evicting evicted record => exact ⟨_, List.append_assoc _ _ _, by constructor⟩
  | skipped record => exact ⟨_, rfl, by constructor⟩
  | ran record => exact ⟨_, List.append_assoc _ _ _, by constructor⟩

/-- The calls made from `r` to `r'`. -/
def Replica.callsTo (r r' : Replica (Recorded SM)) : List (MachineCall SM) :=
  r'.stateMachine.calls.drop r.stateMachine.calls.length

theorem Replica.callsTo_eq {r r' : Replica (Recorded SM)} {calls : List (MachineCall SM)}
    (isCalls : r'.stateMachine.calls = r.stateMachine.calls ++ calls) : r.callsTo r' = calls := by
  unfold callsTo
  rw [isCalls, List.drop_left]

/-- Whether a call brings a checkpoint in. -/
def MachineCall.transfers : MachineCall SM → Bool
  | .stageChunk .. => true
  | .restore .. => true
  | _ => false

theorem Runs.quiet {opNumber : Nat} {entry : EntryFor SM} {calls : List (MachineCall SM)}
    (runs : Runs opNumber calls entry) : ∀ call ∈ calls, call.transfers = false := by
  intro call mem
  cases runs with
  | registered | skipped =>
      cases List.mem_singleton.mp mem
      rfl
  | evicting | ran =>
      rcases List.mem_cons.mp mem with rfl | mem
      · rfl
      · cases List.mem_singleton.mp mem
        rfl

/-- Executing entries brings no checkpoint in. -/
theorem Blocks.quiet {may : Nat → EntryFor (Recorded SM) → Prop} {a b : Nat} {m m' : Recorded SM}
    (blocks : Blocks may a m b m') : ∃ calls : List (MachineCall SM),
      m'.calls = m.calls ++ calls ∧ ∀ call ∈ calls, call.transfers = false := by
  induction blocks with
  | refl => exact ⟨[], (List.append_nil _).symm, nofun⟩
  | tail _ _ block ih =>
      obtain ⟨calls, isCalls, quiet⟩ := ih
      obtain ⟨last, isLast, runs⟩ := block.recorded
      refine ⟨calls ++ last, ?_, fun call mem => ?_⟩
      · rw [isLast, isCalls, List.append_assoc]
      · rcases List.mem_append.mp mem with old | new
        · exact quiet call old
        · exact runs.quiet call new

end Vsr
