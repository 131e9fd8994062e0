import Mathlib.Data.List.TakeWhile
import Vsr.Checkpoint.Staged
import Vsr.Durable.Executed

/-!
# Segments have no holes, and a checkpoint served stays

While a checkpoint is served it is the state after exactly its ops, and the log
starts no later than it.  Every segment sent ends where the log does, and starts
where the log holds the next entry.
-/

set_option autoImplicit false

namespace Vsr

open Relation (ReflTransGen)

variable {SM : Type} [StateMachine SM]

/-! ## What a state machine promises -/

namespace MachineCall

/-- The machine a call leaves. -/
def run (m : SM) : MachineCall SM → SM
  | .apply opNumber op => (StateMachine.apply m opNumber op).1
  | .recordClient opNumber clientId record => StateMachine.recordClient m opNumber clientId record
  | .checkpoint => (StateMachine.checkpoint m).1
  | .releaseCheckpoint => StateMachine.releaseCheckpoint m
  | .stageChunk opNumber index chunk => StateMachine.stageChunk m opNumber index chunk
  | .restore opNumber => StateMachine.restore m opNumber

/-- The op number of a call that changes the state. -/
def opNumber? : MachineCall SM → Option Nat
  | .apply opNumber _ => some opNumber
  | .recordClient opNumber _ _ => some opNumber
  | .restore opNumber => some opNumber
  | _ => none

/-- Whether a call leaves the checkpoint kept alone. -/
def lasts : MachineCall SM → Bool
  | .apply .. => true
  | .recordClient .. => true
  | .stageChunk .. => true
  | _ => false

end MachineCall

/-- The machine after `calls`. -/
def after (m : SM) (calls : List (MachineCall SM)) : SM := calls.foldl MachineCall.run m

/-- The calls of the ops up to `k`. -/
def upTo (k : Nat) (calls : List (MachineCall SM)) : List (MachineCall SM) :=
  calls.takeWhile fun call => call.opNumber?.all (· ≤ k)

/-- Calls in the order a replica makes them: entry by entry from op `start` on, up to
op `b`, a checkpoint restored being beyond what has executed. -/
inductive Advances (start : Nat) : List (MachineCall SM) → Nat → Prop
  | nil : Advances start [] start
  | entry {calls new : List (MachineCall SM)} {b : Nat} {entry : EntryFor SM}
      (before : Advances start calls b) (runs : Runs (b + 1) new entry) :
      Advances start (calls ++ new) (b + 1)
  | keep {calls : List (MachineCall SM)} {b : Nat} {call : MachineCall SM}
      (before : Advances start calls b) (keeps : call.keeps = true) :
      Advances start (calls ++ [call]) b
  | restore {calls : List (MachineCall SM)} {b opNumber : Nat} (before : Advances start calls b)
      (beyond : b < opNumber) : Advances start (calls ++ [.restore opNumber]) opNumber

/-- The state after the first `k` ops of a machine that was handed over after
`applied` of them, with the states of its `past`, and called for `calls` since. -/
def stateAfter {State : Type} (content : SM → State) (start : SM) (applied : Nat)
    (past : Nat → State) (calls : List (MachineCall SM)) (k : Nat) : State :=
  if k < applied then past k else content (after start (upTo k calls))

/-- What the library asks of the checkpoints of a state machine, where `content` is its
state, client table included, and `kept` the copy it keeps of one. -/
structure CheckpointContract {State : Type} (content : SM → State) (kept : SM → Option State)
    (start : SM) (applied : Nat) (past : Nat → State) : Prop where
  /-- Keeping, dropping and staging a checkpoint leave the state. -/
  keeps : ∀ (m : SM) (call : MachineCall SM), call.keeps = true → content (call.run m) = content m
  /-- A checkpoint is kept until it is dropped. -/
  lasts : ∀ (m : SM) (call : MachineCall SM), call.lasts = true → kept (call.run m) = kept m
  /-- A copy is kept of the state as of the op number returned, one applied. -/
  copies : ∀ (calls : List (MachineCall SM)) (b : Nat), Advances applied calls b →
    (StateMachine.checkpoint (after start calls)).2 ≤ b →
    kept (StateMachine.checkpoint (after start calls)).1 =
      some (stateAfter content start applied past calls
        (StateMachine.checkpoint (after start calls)).2)

theorem after_append (m : SM) (first second : List (MachineCall SM)) :
    after m (first ++ second) = after (after m first) second :=
  List.foldl_append

theorem Advances.trans {a b c : Nat} {calls rest : List (MachineCall SM)}
    (first : Advances a calls b) (second : Advances b rest c) : Advances a (calls ++ rest) c := by
  induction second with
  | nil => rwa [List.append_nil]
  | entry _ runs ih =>
      rw [← List.append_assoc]
      exact .entry ih runs
  | keep _ keeps ih =>
      rw [← List.append_assoc]
      exact .keep ih keeps
  | restore _ beyond ih =>
      rw [← List.append_assoc]
      exact .restore ih beyond

theorem Advances.le {a b : Nat} {calls : List (MachineCall SM)} (advances : Advances a calls b) :
    a ≤ b := by
  induction advances with
  | nil => exact le_rfl
  | entry _ _ ih => exact ih.trans (Nat.le_succ _)
  | keep _ _ ih => exact ih
  | restore _ beyond ih => exact ih.trans (Nat.le_of_lt beyond)

theorem Runs.opNumber {opNumber : Nat} {calls : List (MachineCall SM)} {entry : EntryFor SM}
    (runs : Runs opNumber calls entry) : ∀ call ∈ calls, call.opNumber? = some opNumber := by
  intro call mem
  cases runs with
  | registered | skipped =>
      cases List.mem_singleton.mp mem
      rfl
  | evicting | ran =>
      rcases List.mem_cons.mp mem with rfl | mem
      · rfl
      · cases List.mem_singleton.mp mem
        rfl

/-- The calls that change the state are of ops after those executed before. -/
theorem Advances.later {a b : Nat} {calls : List (MachineCall SM)} (advances : Advances a calls b) :
    ∀ call ∈ calls, call.keeps = true ∨ ∃ opNumber, call.opNumber? = some opNumber ∧ a < opNumber := by
  induction advances with
  | nil => exact nofun
  | entry before runs ih =>
      intro call mem
      rcases List.mem_append.mp mem with old | new
      · exact ih call old
      · exact .inr ⟨_, runs.opNumber call new, Nat.lt_succ_of_le before.le⟩
  | keep _ keeps ih =>
      intro call mem
      rcases List.mem_append.mp mem with old | new
      · exact ih call old
      · rw [List.mem_singleton.mp new]
        exact .inl keeps
  | restore before beyond ih =>
      intro call mem
      rcases List.mem_append.mp mem with old | new
      · exact ih call old
      · rw [List.mem_singleton.mp new]
        exact .inr ⟨_, rfl, before.le.trans_lt beyond⟩

section
variable {State : Type} {content : SM → State} {kept : SM → Option State} {start : SM}
  {applied : Nat} {past : Nat → State}

theorem CheckpointContract.content_after (contract : CheckpointContract content kept start applied past)
    {m : SM} {calls : List (MachineCall SM)} (keeps : ∀ call ∈ calls, call.keeps = true) :
    content (after m calls) = content m := by
  induction calls generalizing m with
  | nil => rfl
  | cons call rest ih =>
      show content (after (call.run m) rest) = _
      rw [ih fun other mem => keeps other (List.mem_cons_of_mem _ mem)]
      exact contract.keeps m call (keeps call List.mem_cons_self)

theorem CheckpointContract.kept_after (contract : CheckpointContract content kept start applied past)
    {m : SM} {calls : List (MachineCall SM)} (lasts : ∀ call ∈ calls, call.lasts = true) :
    kept (after m calls) = kept m := by
  induction calls generalizing m with
  | nil => rfl
  | cons call rest ih =>
      show kept (after (call.run m) rest) = _
      rw [ih fun other mem => lasts other (List.mem_cons_of_mem _ mem)]
      exact contract.lasts m call (lasts call List.mem_cons_self)

/-- Later ops leave the states before them. -/
theorem CheckpointContract.stateAfter_append
    (contract : CheckpointContract content kept start applied past) {b c k : Nat}
    {calls new : List (MachineCall SM)} (advances : Advances b new c) (before : k ≤ b) :
    stateAfter content start applied past (calls ++ new) k =
      stateAfter content start applied past calls k := by
  unfold stateAfter
  split
  · rfl
  · unfold upTo
    rw [List.takeWhile_append]
    split
    · next all =>
      have keeps : ∀ call ∈ new.takeWhile fun call => call.opNumber?.all (· ≤ k),
          call.keeps = true := by
        intro call mem
        have within := List.mem_takeWhile_imp mem
        rcases advances.later call ((List.takeWhile_sublist _).mem mem) with
          keeps | ⟨opNumber, isNumber, later⟩
        · exact keeps
        · rw [isNumber, Option.all_some, decide_eq_true_iff] at within
          omega
      have whole := (List.takeWhile_prefix fun call : MachineCall SM =>
        call.opNumber?.all (· ≤ k)).eq_of_length all
      rw [after_append, contract.content_after keeps, whole]
    · rfl

end

/-! ## The calls of a move -/

namespace Recorded

/-- The calls made from `m` to `m'`. -/
structure Plays (m m' : Recorded SM) (calls : List (MachineCall SM)) : Prop where
  record : m'.calls = m.calls ++ calls
  machine : m'.machine = after m.machine calls

theorem Plays.refl (m : Recorded SM) : Plays m m [] := ⟨(List.append_nil _).symm, rfl⟩

theorem Plays.trans {m m' m'' : Recorded SM} {first second : List (MachineCall SM)}
    (plays : Plays m m' first) (rest : Plays m' m'' second) : Plays m m'' (first ++ second) where
  record := by rw [rest.record, plays.record, List.append_assoc]
  machine := by rw [rest.machine, plays.machine, after_append]

end Recorded

open Recorded (Plays)

theorem Block.plays {opNumber : Nat} {entry : EntryFor (Recorded SM)} {m m' : Recorded SM}
    (block : Block opNumber entry m m') :
    ∃ calls : List (MachineCall SM), Plays m m' calls ∧ Runs opNumber calls entry := by
  cases block with
  | registered record => exact ⟨_, ⟨rfl, rfl⟩, by constructor⟩
  | evicting evicted record => exact ⟨_, ⟨List.append_assoc _ _ _, rfl⟩, by constructor⟩
  | skipped record => exact ⟨_, ⟨rfl, rfl⟩, by constructor⟩
  | ran record => exact ⟨_, ⟨List.append_assoc _ _ _, rfl⟩, by constructor⟩

theorem Runs.lasts {opNumber : Nat} {calls : List (MachineCall SM)} {entry : EntryFor SM}
    (runs : Runs opNumber calls entry) : ∀ call ∈ calls, call.lasts = true := by
  intro call mem
  cases runs with
  | registered | skipped =>
      cases List.mem_singleton.mp mem
      rfl
  | evicting | ran =>
      rcases List.mem_cons.mp mem with rfl | mem
      · rfl
      · cases List.mem_singleton.mp mem
        rfl

theorem Blocks.plays {may : Nat → EntryFor (Recorded SM) → Prop} {a b : Nat} {m m' : Recorded SM}
    (blocks : Blocks may a m b m') : ∃ calls : List (MachineCall SM),
      Plays m m' calls ∧ Advances a calls b ∧ ∀ call ∈ calls, call.lasts = true := by
  induction blocks with
  | refl => exact ⟨[], .refl _, .nil, nofun⟩
  | tail _ _ block ih =>
      obtain ⟨calls, plays, advances, lasts⟩ := ih
      obtain ⟨new, more, runs⟩ := block.plays
      refine ⟨calls ++ new, plays.trans more, .entry advances runs, fun call mem => ?_⟩
      rcases List.mem_append.mp mem with old | new
      · exact lasts call old
      · exact runs.lasts call new

/-- The log starts within what has executed, which is committed and held. -/
structure Standing.Windowed {Op : Type} (s : Standing Op) : Prop where
  start : s.logStart ≤ s.applied
  applied : s.applied ≤ s.commitNumber
  held : s.applied ≤ s.opNumber

namespace Replica

section
variable {heard : MessageFor SM → Prop} {r r' : Replica SM}

theorem commitUpTo_windowed {commitNumber : Nat} {reply : Bool}
    (run : r.commitUpTo commitNumber reply = some r') (windowed : r.toStanding.Windowed) :
    r'.toStanding.Windowed := by
  obtain ⟨start, applied, held⟩ := windowed
  obtain ⟨done, peer, _, executes⟩ := commitUpTo_peer run
  have standing : r'.toStanding = (r.peer.raise commitNumber done).toStanding :=
    congrArg (·.toStanding) peer
  rw [standing]
  have committed : r.commitNumber ≤ max r.commitNumber commitNumber := le_max_left _ _
  rcases executes with same | ⟨_, _, more, bounded, _, inside⟩
  · replace same : done = r.applied := same
    subst same
    exact ⟨start, applied.trans committed, held⟩
  · exact ⟨start.trans more, bounded, inside⟩

theorem Move.windowed (move : Move heard r r') (windowed : r.toStanding.Windowed) :
    r'.toStanding.Windowed := by
  have still : r'.toCore = r.toCore → r'.toStanding.Windowed := by
    intro core
    rw [core]
    exact windowed
  obtain ⟨start, applied, held⟩ := windowed
  cases move with
  | quiet same =>
      rw [same.standing]
      exact ⟨start, applied, held⟩
  | send replicaId message _ => exact still (send_toCore r replicaId message)
  | append entry =>
      refine ⟨start, applied, held.trans ?_⟩
      simp [Standing.opNumber, appendToLog]
  | merge run =>
      obtain ⟨mergeable, peer, _⟩ := mergeLog_peer run
      have standing := congrArg (·.toStanding) peer
      rw [show r'.toStanding = _ from standing]
      exact ⟨start, applied, applied.trans mergeable.committed⟩
  | commit run => exact commitUpTo_windowed run ⟨start, applied, held⟩
  | count run =>
      obtain ⟨_, _, ⟨_, rfl⟩ | ⟨_, run⟩⟩ := registerAck_cases run
      · exact ⟨start, applied, held⟩
      · exact commitUpTo_windowed run ⟨start, applied, held⟩
  | apply _ run =>
      obtain ⟨done, peer, _, executes⟩ := applyCommitted_peer run
      have standing := congrArg (·.toStanding) peer
      rw [show r'.toStanding = _ from standing]
      rcases executes with rfl | ⟨more, bounded, _, inside⟩
      · exact ⟨start, applied, held⟩
      · exact ⟨start.trans more, bounded, inside⟩
  | @enter m _ _ _ _ _ run =>
      have entered : m.toStanding.Windowed := commitUpTo_windowed run ⟨start, applied, held⟩
      exact ⟨entered.start, entered.applied, entered.held⟩
  | rebuild run => exact still (rebuildPending_same run).core
  | restore _ _ run =>
      obtain ⟨_, core, _⟩ := restoreCheckpoint_effect run
      rw [core]
      exact ⟨le_rfl, le_rfl, Nat.le_add_right _ _⟩
  | keep run =>
      rcases keepCheckpoint_effect run with ⟨rfl, _⟩ | ⟨_, _, _, _, rfl⟩ <;>
        exact ⟨start, applied, held⟩
  | query run => exact still (onQuery_queried run).core
  | confirm _ run => exact still (onConfirmViewOk_queried run).core
  | supersede | leave | turn | transfer | rejoin | refetch | stage | release =>
      exact ⟨start, applied, held⟩

end

variable {heard : MessageFor (Recorded SM) → Prop} {r r' : Replica (Recorded SM)}

/-- What a move does to the checkpoint served, and the calls it makes for it. -/
inductive Serves (r r' : Replica (Recorded SM)) : Prop
  | stays {calls : List (MachineCall SM)}
      (serving : r'.serving.map Prod.fst = r.serving.map Prod.fst)
      (logStart : r'.logStart = r.logStart) (plays : Plays r.stateMachine r'.stateMachine calls)
      (advances : Advances r.applied calls r'.applied)
      (lasts : ∀ call ∈ calls, call.lasts = true) : Serves r r'
  | drops {calls : List (MachineCall SM)} (free : r'.serving = none)
      (plays : Plays r.stateMachine r'.stateMachine calls)
      (advances : Advances r.applied calls r'.applied) : Serves r r'
  | keeps {k : Nat} (free : r.serving = none)
      (isNumber : k = (StateMachine.checkpoint r.stateMachine).2) (start : r.logStart ≤ k)
      (done : k ≤ r.applied)
      (becomes : r' = { r with
        stateMachine := (StateMachine.checkpoint r.stateMachine).1, serving := some (k, 0) }) :
      Serves r r'

theorem Serves.still (serving : r'.serving.map Prod.fst = r.serving.map Prod.fst)
    (logStart : r'.logStart = r.logStart) (applied : r'.applied = r.applied)
    (machine : r'.stateMachine = r.stateMachine) : Serves r r' := by
  have plays : Plays r.stateMachine r'.stateMachine [] := by
    rw [machine]
    exact .refl _
  refine .stays serving logStart plays ?_ nofun
  rw [applied]
  exact .nil

theorem Serves.of_core (core : r'.toCore = r.toCore) (machine : r'.stateMachine = r.stateMachine) :
    Serves r r' := by
  apply Serves.still
  · rw [core]
  · rw [core]
  · rw [core]
  · exact machine

/-- Committing executes entries, after whatever has changed besides. -/
theorem Executed.serves {m : Replica (Recorded SM)} (executed : Executed m r')
    (blocks : Blocks m.Durable m.applied m.stateMachine r'.applied r'.stateMachine)
    (serving : m.serving = r.serving) (logStart : m.logStart = r.logStart)
    (applied : m.applied = r.applied) (machine : m.stateMachine = r.stateMachine) :
    Serves r r' := by
  obtain ⟨calls, plays, advances, lasts⟩ := blocks.plays
  have core := executed.core
  rw [machine] at plays
  rw [applied] at advances
  refine .stays ?_ ?_ plays advances lasts
  · rw [core, ← serving]
  · rw [core, ← logStart]

theorem Move.serves (move : Move heard r r') (windowed : r.toStanding.Windowed) : Serves r r' := by
  cases move with
  | quiet same =>
      refine .still same.serving ?_ ?_ (congrArg (·.stateMachine) same.clientTable)
      · rw [same.standing]
      · rw [same.standing]
  | send replicaId message _ =>
      exact .of_core (send_toCore r replicaId message)
        (congrArg (·.stateMachine) (send_toClientTable r replicaId message))
  | merge run =>
      have logged := mergeLog_logged run
      have core := logged.core
      refine .still ?_ ?_ ?_ logged.machine
      · rw [core]
      · rw [core]
        rfl
      · rw [core]
        rfl
  | commit run => exact (commitUpTo_executed run).serves (commitUpTo_blocks run) rfl rfl rfl rfl
  | count run =>
      obtain ⟨_, _, ⟨_, rfl⟩ | ⟨_, run⟩⟩ := registerAck_cases run
      · exact .still rfl rfl rfl rfl
      · exact (commitUpTo_executed run).serves (commitUpTo_blocks run) rfl rfl rfl rfl
  | apply isDurable run =>
      exact (applyCommitted_executed run).1.serves (applyCommitted_blocks isDurable run) rfl rfl rfl
        rfl
  | @enter m _ _ _ _ _ run =>
      obtain ⟨calls, plays, advances, lasts⟩ := (commitUpTo_blocks run).plays
      have core := (commitUpTo_executed run).core
      refine .stays ?_ ?_ plays advances lasts
      · show m.serving.map Prod.fst = _
        rw [core]
      · show m.logStart = _
        rw [core]
  | stage isHeard next timers isFetch =>
      exact .stays rfl rfl ⟨rfl, rfl⟩ (.keep .nil rfl) fun call mem => by
        rw [List.mem_singleton.mp mem]
        rfl
  | rebuild run =>
      exact .of_core (rebuildPending_same run).core (rebuildPending_machine run)
  | @restore _ _ opNumber _ _ isHeard _ run =>
      obtain ⟨beyond, core, machine, _⟩ := restoreCheckpoint_effect run
      have stops : ∃ released : List (MachineCall SM),
          Plays r.stateMachine r.stopServing.stateMachine released ∧
            Advances r.applied released r.applied := by
        unfold stopServing
        split
        · exact ⟨[.releaseCheckpoint], ⟨rfl, rfl⟩, .keep .nil rfl⟩
        · exact ⟨[], .refl _, .nil⟩
      obtain ⟨released, plays, advances⟩ := stops
      have restores : Advances r.applied (released ++ [.restore opNumber]) r'.applied := by
        rw [core]
        exact .restore advances (windowed.applied.trans_lt beyond)
      refine .drops (by rw [core]) ?_ restores
      rw [machine]
      exact plays.trans ⟨rfl, rfl⟩
  | keep run =>
      rcases keepCheckpoint_effect run with ⟨rfl, _⟩ | ⟨free, isNumber, start, done, isKept⟩
      · exact .still rfl rfl rfl rfl
      · exact .keeps free isNumber start done isKept
  | release => exact .drops rfl ⟨rfl, rfl⟩ (.keep .nil rfl)
  | query run =>
      have queried := onQuery_queried run
      exact .of_core queried.core (congrArg (·.stateMachine) queried.clientTable)
  | confirm _ run =>
      have queried := onConfirmViewOk_queried run
      exact .of_core queried.core (congrArg (·.stateMachine) queried.clientTable)
  | supersede | append | leave | turn | transfer | rejoin | refetch =>
      exact .still rfl rfl rfl rfl

theorem Tell.serves (tell : Tell r r') : Serves r r' := by
  cases tell with
  | quiet same =>
      refine .still same.serving ?_ ?_ (congrArg (·.stateMachine) same.clientTable)
      · rw [same.standing]
      · rw [same.standing]
  | send replicaId message _ =>
      exact .of_core (send_toCore r replicaId message)
        (congrArg (·.stateMachine) (send_toClientTable r replicaId message))

theorem Tell.windowed (tell : Tell r r') (windowed : r.toStanding.Windowed) :
    r'.toStanding.Windowed := by
  cases tell with
  | quiet same =>
      rw [same.standing]
      exact windowed
  | send replicaId message _ =>
      rw [send_toCore]
      exact windowed

/-! ## The checkpoint served -/

section
variable {State : Type} {content : SM → State} {kept : SM → Option State} {start : SM}
  {applied : Nat} {past : Nat → State}

/-- The replica has called its machine in order, and the checkpoint it serves is the
state after exactly its ops, none of which is after what has executed and all of which
the log follows. -/
structure Keeping (content : SM → State) (kept : SM → Option State) (start : SM) (applied : Nat)
    (past : Nat → State) (r : Replica (Recorded SM)) : Prop where
  windowed : r.toStanding.Windowed
  plays : Plays ⟨start, []⟩ r.stateMachine r.stateMachine.calls
  advances : Advances applied r.stateMachine.calls r.applied
  serving : ∀ k, r.serving.map Prod.fst = some k → r.logStart ≤ k ∧ k ≤ r.applied ∧
    kept r.stateMachine.machine =
      some (stateAfter content start applied past r.stateMachine.calls k)

theorem Keeping.serves (contract : CheckpointContract content kept start applied past)
    (keeping : Keeping content kept start applied past r) (serves : Serves r r')
    (windowed : r'.toStanding.Windowed) : Keeping content kept start applied past r' := by
  have goesOn : ∀ {calls : List (MachineCall SM)}, Plays r.stateMachine r'.stateMachine calls →
      Advances r.applied calls r'.applied →
      Plays ⟨start, []⟩ r'.stateMachine r'.stateMachine.calls ∧
        Advances applied r'.stateMachine.calls r'.applied := by
    intro calls plays advances
    rw [plays.record]
    exact ⟨keeping.plays.trans plays, keeping.advances.trans advances⟩
  cases serves with
  | stays serving logStart plays advances lasts =>
      obtain ⟨plays', advances'⟩ := goesOn plays advances
      refine ⟨windowed, plays', advances', fun k isServing => ?_⟩
      rw [serving] at isServing
      obtain ⟨first, done, isKept⟩ := keeping.serving k isServing
      refine ⟨logStart ▸ first, done.trans advances.le, ?_⟩
      rw [plays.record, plays.machine, contract.kept_after lasts,
        contract.stateAfter_append advances done]
      exact isKept
  | drops free plays advances =>
      obtain ⟨plays', advances'⟩ := goesOn plays advances
      refine ⟨windowed, plays', advances', fun k isServing => ?_⟩
      rw [free] at isServing
      cases isServing
  | keeps free isNumber first done becomes =>
      subst becomes
      have advances : Advances r.applied ([.checkpoint] : List (MachineCall SM)) r.applied :=
        .keep .nil rfl
      have isMachine : r.stateMachine.machine = after start r.stateMachine.calls :=
        keeping.plays.machine
      obtain ⟨plays', advances'⟩ := goesOn ⟨rfl, rfl⟩ advances
      refine ⟨windowed, plays', advances', fun k isServing => ?_⟩
      cases isServing
      refine ⟨first, done, ?_⟩
      have copies := contract.copies r.stateMachine.calls r.applied keeping.advances
      replace isNumber : _ = (StateMachine.checkpoint r.stateMachine.machine).2 := isNumber
      rw [← isMachine, ← isNumber, ← contract.stateAfter_append advances done] at copies
      exact copies done

/-- A handler keeps what is served. -/
theorem Keeping.handles (contract : CheckpointContract content kept start applied past)
    (keeping : Keeping content kept start applied past r) (handles : Handles heard r r') :
    Keeping content kept start applied past r' :=
  handles.induct keeping
    (fun before move =>
      before.serves contract (move.serves before.windowed) (move.windowed before.windowed))
    fun before tell => before.serves contract tell.serves (tell.windowed before.windowed)

end

end Replica

end Vsr
