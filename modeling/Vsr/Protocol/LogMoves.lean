import Vsr.Protocol.Dispatch

/-!
# What acts do to the log

`LogMove` forgets why a peer acts, and keeps what becomes of the log, of its
start, and of the mark the next write goes by.
-/

set_option autoImplicit false

namespace Vsr

open Relation (ReflTransGen)

variable {Op Query Chunk : Type}

/-- One change to the log, or to what has nothing to do with it. -/
inductive LogMove : Peer Op → Peer Op → Prop
  | stay {p p' : Peer Op} (log : p'.log = p.log) (logStart : p'.logStart = p.logStart)
      (writes : p'.toWriteState = p.toWriteState) (applied : p.applied ≤ p'.applied)
      (committed : p.commitNumber ≤ p'.commitNumber)
      (executes : p'.applied = p.applied ∨ p'.applied ≤ p'.commitNumber) : LogMove p p'
  | append {p : Peer Op} (entry : LogEntry Op) : LogMove p (p.append entry)
  | merge {p : Peer Op} (start : Nat) (entries : List (LogEntry Op))
      (mergeable : p.Mergeable start entries) : LogMove p (p.merge start entries)
  | restore {p : Peer Op} (opNumber : Nat) (beyond : p.commitNumber < opNumber) :
      LogMove p (p.restore opNumber)
  | compact {p : Peer Op} (opNumber : Nat) (held : p.logStart < opNumber)
      (done : opNumber ≤ p.applied) (within : opNumber - p.logStart ≤ p.log.length) :
      LogMove p { p with log := p.log.drop (opNumber - p.logStart), logStart := opNumber }

/-- The log and the counters stay as they are. -/
theorem LogMove.quiet {p p' : Peer Op} (log : p'.log = p.log) (logStart : p'.logStart = p.logStart)
    (writes : p'.toWriteState = p.toWriteState) (applied : p'.applied = p.applied)
    (committed : p'.commitNumber = p.commitNumber) : LogMove p p' :=
  .stay log logStart writes applied.ge committed.ge (.inl applied)

theorem Peer.AtCheckpoint.moves {p q : Peer Op} {resume : Resume Op}
    (fetched : p.AtCheckpoint q resume) :
    ReflTransGen LogMove p q := by
  rcases fetched with rfl | ⟨beyond, rfl, _⟩
  · exact .refl
  · exact .single (.restore _ beyond)

theorem Peer.Executes.moves {p : Peer Op} {commitNumber applied : Nat}
    (executes : p.Executes commitNumber applied) : LogMove p (p.raise commitNumber applied) := by
  refine .stay rfl rfl rfl ?_ (le_max_left _ _) ?_
  · rcases executes with same | ⟨_, _, more, _⟩
    · exact same.ge
    · exact more
  · rcases executes with same | ⟨_, _, _, committed, _⟩
    · exact .inl same
    · exact .inr committed

/-- A merge, the commits it brings, and whatever else changes with it. -/
theorem merge_raise_moves {p q p' : Peer Op} {start commitNumber applied : Nat}
    {entries : List (LogEntry Op)} (fetched : ReflTransGen LogMove p q)
    (mergeable : q.Mergeable start entries)
    (executes : (q.merge start entries).Executes commitNumber applied)
    (last : LogMove ((q.merge start entries).raise commitNumber applied) p') :
    ReflTransGen LogMove p p' :=
  fetched.trans (((ReflTransGen.single (.merge start entries mergeable)).tail
    executes.moves).tail last)

/-- Every act is a sequence of log moves. -/
theorem Act.moves {i : Inputs Op Query Chunk} {p p' : Peer Op} (act : Act i p p') :
    ReflTransGen LogMove p p' := by
  cases act with
  | leave | catchUp | fallBehind | count | record | markSent | ask | fetchState | refetch | keep
  | release | collect | fetchRecovery | forget => exact .single (.quiet rfl rfl rfl rfl rfl)
  | prepare entry | accept entry => exact .single (.append entry)
  | commit commitNumber applied status backup told held executes => exact .single executes.moves
  | decide commitNumber applied status primary quorum executes => exact .single executes.moves
  | execute applied executes =>
      refine .single (.stay rfl rfl rfl ?_ le_rfl ?_)
      · rcases executes with same | ⟨_, _, more, _⟩
        · exact same.ge
        · exact more
      · rcases executes with same | ⟨_, _, _, committed, _⟩
        · exact .inl same
        · exact .inr (by simpa using committed)
  | compact opNumber held done within kept => exact .single (.compact opNumber held done within)
  | strand v segment commitNumber resumes left beyond => exact .single (.restore _ beyond)
  | begin bestId best commitNumber applied status primary quorum isBest reach mergeable reported
      executes =>
      exact merge_raise_moves .refl mergeable executes (.quiet rfl rfl rfl rfl rfl)
  | follow v segment told commitNumber applied status later heard reach mergeable isTold executes =>
      exact merge_raise_moves .refl mergeable executes (.quiet rfl rfl rfl rfl rfl)
  | join segment commitNumber applied status asked follower sent fetched reach mergeable executes =>
      exact merge_raise_moves fetched.moves mergeable executes (.quiet rfl rfl rfl rfl rfl)
  | adopt segment commitNumber status asked primary sent fetched reach mergeable =>
      have merged := fetched.moves.tail (.merge _ _ mergeable)
      exact merged.tail (.quiet rfl rfl rfl rfl rfl)
  | extend segment commitNumber applied status sent fetched reach further mergeable executes =>
      exact merge_raise_moves fetched.moves mergeable executes (.quiet rfl rfl rfl rfl rfl)
  | comeBack v segment commitNumber applied status answered fetched reach mergeable executes =>
      exact merge_raise_moves fetched.moves mergeable executes (.quiet rfl rfl rfl rfl rfl)

/-- No act changes who the peer is. -/
theorem Act.identity {i : Inputs Op Query Chunk} {p p' : Peer Op} (act : Act i p p') :
    p'.config = p.config ∧ p'.selfId = p.selfId := by
  have restored : ∀ {q : Peer Op} {resume : Resume Op}, p.AtCheckpoint q resume →
      q.config = p.config ∧ q.selfId = p.selfId := by
    rintro q resume (rfl | ⟨_, rfl, _⟩) <;> exact ⟨rfl, rfl⟩
  cases act with
  | join segment commitNumber applied status asked follower sent fetched =>
      have same := restored fetched
      exact ⟨same.1, same.2⟩
  | adopt segment commitNumber status asked primary sent fetched =>
      have same := restored fetched
      exact ⟨same.1, same.2⟩
  | extend segment commitNumber applied status sent fetched =>
      have same := restored fetched
      exact ⟨same.1, same.2⟩
  | comeBack v segment commitNumber applied status answered fetched =>
      have same := restored fetched
      exact ⟨same.1, same.2⟩
  | _ => exact ⟨rfl, rfl⟩

/-- A recovering peer holds no log, and no act makes a peer recovering. -/
theorem Act.recovering {i : Inputs Op Query Chunk} {p p' : Peer Op} (act : Act i p p')
    (empty : p.status = .recovering → p.log = []) : p'.status = .recovering → p'.log = [] := by
  cases act with
  | leave | catchUp => exact fun status => absurd status (by simp [Peer.turnTo])
  | fallBehind => exact fun status => absurd status (by simp)
  | prepare entry status | accept entry commitNumber status =>
      exact fun recovering => absurd (status.symm.trans recovering) (by simp)
  | begin | follow | join | comeBack => exact fun status => absurd status (by simp [Peer.enterNormal])
  | adopt segment commitNumber status asked primary sent fetched =>
      refine fun recovering => absurd (status.symm.trans ?_) (by simp : ¬Status.viewChange = .recovering)
      rcases fetched with rfl | ⟨_, rfl, _⟩ <;> exact recovering
  | extend => exact fun status => absurd status (by simp)
  | strand => exact fun _ => rfl
  | compact opNumber held done within =>
      intro recovering
      show p.log.drop _ = []
      rw [empty recovering, List.drop_nil]
  | _ => exact empty

/-! ## Along the steps of a handler -/

/-- What every act keeps, a whole handler keeps. -/
theorem Replica.Runs.induct {SM : Type} [StateMachine SM] {i : Replica.InputsFor SM}
    {r r' : Replica SM} (runs : Replica.Runs i r r') {P : Peer (Input SM) → Prop}
    (start : P r.peer)
    (act : ∀ {p p' : Peer (Input SM)}, P p → Act i p p' → P p') : P r'.peer := by
  obtain ⟨said, steps, _⟩ := runs Set.univ fun _ _ => Set.mem_univ _
  suffices ∀ s : Speaker (Input SM) (Query SM) (Chunk SM),
      Steps i ⟨r.peer, Set.univ⟩ s → P s.peer from this ⟨r'.peer, said⟩ steps
  intro s steps
  induction steps with
  | refl => exact start
  | tail _ step ih =>
      cases step with
      | act does => exact act ih does
      | say envelope truthful => exact ih

theorem Replica.Runs.moves {SM : Type} [StateMachine SM] {i : Replica.InputsFor SM}
    {r r' : Replica SM} (runs : Replica.Runs i r r') : ReflTransGen LogMove r.peer r'.peer :=
  runs.induct .refl fun before act => before.trans act.moves

theorem Replica.Runs.identity {SM : Type} [StateMachine SM] {i : Replica.InputsFor SM}
    {r r' : Replica SM} (runs : Replica.Runs i r r') :
    r'.config = r.config ∧ r'.selfId = r.selfId :=
  runs.induct (P := fun p => p.config = r.config ∧ p.selfId = r.selfId) ⟨rfl, rfl⟩
    fun before act => ⟨act.identity.1.trans before.1, act.identity.2.trans before.2⟩

end Vsr
