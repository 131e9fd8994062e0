import Vsr.Replication.Log

/-!
# What the library asks of a state machine

A state machine has a content, which the ops and the client records handed to it
change and nothing else does.  It has been through the contents of a history, one
after every op, keeps checkpoints of them, and takes in those of other replicas.
What a replica executes comes to the same on every state machine of one content.
-/

set_option autoImplicit false

namespace Vsr

/-- What executing the entry at `opNumber` does to a state machine. -/
inductive Took {SM : Type} [StateMachine SM] (opNumber : Nat) : SM → SM → Prop
  | told (machine : SM) (clientId : Nat) (record : Option (ClientRecord (Output SM))) :
      Took opNumber machine (StateMachine.recordClient machine opNumber clientId record)
  /-- It is told of the session evicted first. -/
  | evicts (machine : SM) (evicted clientId : Nat) (record : Option (ClientRecord (Output SM))) :
      Took opNumber machine (StateMachine.recordClient
        (StateMachine.recordClient machine opNumber evicted none) opNumber clientId record)
  | applies (machine : SM) (op : Input SM) (clientId : Nat)
      (record : Option (ClientRecord (Output SM))) :
      Took opNumber machine (StateMachine.recordClient
        (StateMachine.apply machine opNumber op).1 opNumber clientId record)

/-- A state machine as the library sees it. -/
structure Contract (SM State : Type) [StateMachine SM] where
  /-- The state, and the client table with it. -/
  content : SM → State
  /-- What a checkpoint of this content is split into. -/
  chunks : State → List (Chunk SM)
  Sound : SM → Prop
  /-- It has executed this many ops, and may come back as of any of them. -/
  Past : SM → (Nat → State) → Nat → Prop
  /-- It keeps a checkpoint of this content, as of this op. -/
  Keeps : SM → Nat → State → Prop
  /-- It has staged these chunks of a checkpoint at this op. -/
  Staged : SM → Nat → List (Chunk SM) → Prop
  keepsTable : KeepsTable Sound
  -- What is called and what is seen depends on the content alone.
  apply_content : ∀ {machine other : SM} (opNumber : Nat) (op : Input SM),
    content machine = content other →
    content (StateMachine.apply machine opNumber op).1 =
        content (StateMachine.apply other opNumber op).1 ∧
      (StateMachine.apply machine opNumber op).2 = (StateMachine.apply other opNumber op).2
  record_content : ∀ {machine other : SM} (opNumber clientId : Nat)
    (record : Option (ClientRecord (Output SM))), content machine = content other →
    content (StateMachine.recordClient machine opNumber clientId record) =
      content (StateMachine.recordClient other opNumber clientId record)
  query_content : ∀ {machine other : SM} (query : Query SM), content machine = content other →
    StateMachine.query machine query = StateMachine.query other query
  table_content : ∀ {machine other : SM}, content machine = content other →
    (StateMachine.clientTable machine).Perm (StateMachine.clientTable other)
  -- The history a state machine has been through.
  past_content : ∀ {machine history opNumber}, Past machine history opNumber →
    content machine = history opNumber
  past_same : ∀ {machine history history' opNumber}, Past machine history opNumber →
    (∀ k ≤ opNumber, history' k = history k) → Past machine history' opNumber
  past_took : ∀ {machine machine' history opNumber}, Past machine history opNumber →
    Took (opNumber + 1) machine machine' → content machine' = history (opNumber + 1) →
    Past machine' history (opNumber + 1)
  past_stage : ∀ {machine history opNumber} (staged index : Nat) (chunk : Chunk SM),
    Past machine history opNumber →
    Past (StateMachine.stageChunk machine staged index chunk) history opNumber
  past_release : ∀ {machine history opNumber}, Past machine history opNumber →
    Past (StateMachine.releaseCheckpoint machine) history opNumber
  past_checkpoint : ∀ {machine history opNumber}, Past machine history opNumber →
    Past (StateMachine.checkpoint machine).1 history opNumber
  -- The checkpoint kept for others.
  keeps_checkpoint : ∀ {machine history opNumber}, Past machine history opNumber →
    (StateMachine.checkpoint machine).2 ≤ opNumber →
    Keeps (StateMachine.checkpoint machine).1 (StateMachine.checkpoint machine).2
      (history (StateMachine.checkpoint machine).2)
  keeps_took : ∀ {machine machine' kept state opNumber}, Keeps machine kept state →
    Took opNumber machine machine' → Keeps machine' kept state
  keeps_stage : ∀ {machine kept state} (opNumber index : Nat) (chunk : Chunk SM),
    Keeps machine kept state →
    Keeps (StateMachine.stageChunk machine opNumber index chunk) kept state
  keeps_chunk : ∀ {machine kept state index}, Keeps machine kept state →
    index < (chunks state).length →
    (chunks state)[index]? = some (StateMachine.checkpointChunk machine index).1 ∧
      ((StateMachine.checkpointChunk machine index).2 = true ↔
        index + 1 = (chunks state).length)
  chunks_some : ∀ state, 0 < (chunks state).length
  -- The checkpoint staged.
  staged_first : ∀ (machine : SM) (opNumber : Nat) (chunk : Chunk SM),
    Staged (StateMachine.stageChunk machine opNumber 0 chunk) opNumber [chunk]
  staged_next : ∀ {machine opNumber staged} (chunk : Chunk SM), Staged machine opNumber staged →
    staged ≠ [] → Staged (StateMachine.stageChunk machine opNumber staged.length chunk) opNumber
      (staged ++ [chunk])
  staged_took : ∀ {machine machine' opNumber staged executed},
    Staged machine opNumber staged → Took executed machine machine' →
    Staged machine' opNumber staged
  staged_release : ∀ {machine opNumber staged}, Staged machine opNumber staged →
    Staged (StateMachine.releaseCheckpoint machine) opNumber staged
  staged_checkpoint : ∀ {machine opNumber staged}, Staged machine opNumber staged →
    Staged (StateMachine.checkpoint machine).1 opNumber staged
  /-- A checkpoint of what a state machine can come to is restored whole. -/
  past_restore : ∀ {machine reached : SM} {history opNumber executed},
    Past machine history executed → executed ≤ opNumber → Sound reached →
    content reached = history opNumber → Staged machine opNumber (chunks (history opNumber)) →
    Past (StateMachine.restore machine opNumber) history opNumber

/-! ## State machines of one content -/

namespace Replica
variable {SM State : Type} [StateMachine SM] {r r' : Replica SM} (s : SM)

theorem nextCandidate_swap (r : Replica SM) (candidates : List (Nat × Nat)) :
    nextCandidate { r with stateMachine := s } candidates = nextCandidate r candidates := by
  induction candidates with
  | nil => rfl
  | cons candidate rest ih =>
      unfold nextCandidate
      rw [ih]
      rfl

theorem evictedClient_swap {evicted : Nat} (run : r.evictedClient = some (evicted, r')) :
    { r with stateMachine := s }.evictedClient = some (evicted, { r' with stateMachine := s }) ∧
      r'.stateMachine = r.stateMachine := by
  unfold evictedClient at run ⊢
  rw [nextCandidate_swap]
  split at run
  · next isNext =>
    cases run
    exact ⟨by rw [isNext], rfl⟩
  · next none =>
    obtain ⟨scanned, scan, run⟩ := Option.bind_eq_some_iff.mp run
    obtain ⟨⟨client, rest⟩, isNext, run⟩ := Option.bind_eq_some_iff.mp run
    cases run
    unfold findEvictionCandidates at scan
    obtain ⟨any, scan⟩ := require_eq_some.mp scan
    cases scan
    have scans : { r with stateMachine := s }.findEvictionCandidates =
        some { r with stateMachine := s, evictionCandidates := _ } := require_of any
    refine ⟨?_, rfl⟩
    rw [none, scans]
    dsimp only [Option.bind_eq_bind, Option.bind_some]
    rw [(nextCandidate_swap s _ _).trans isNext]
    rfl

theorem evict_swap {opNumber : Nat} (run : r.evict opNumber = some r') :
    ∃ evicted, r'.stateMachine = StateMachine.recordClient r.stateMachine opNumber evicted none ∧
      { r with stateMachine := s }.evict opNumber = some { r' with
        stateMachine := StateMachine.recordClient s opNumber evicted none } := by
  unfold evict at run ⊢
  obtain ⟨⟨evicted, chosen⟩, choose, run⟩ := Option.bind_eq_some_iff.mp run
  obtain ⟨sessions, fewer, run⟩ := Option.bind_eq_some_iff.mp run
  obtain ⟨chooses, machine⟩ := evictedClient_swap s choose
  cases run
  refine ⟨evicted, congrArg (StateMachine.recordClient · opNumber evicted none) machine, ?_⟩
  rw [chooses]
  dsimp only [Option.bind_eq_bind, Option.bind_some] at fewer ⊢
  rw [fewer]
  rfl

/-- `r'` is `r` after a call, on a state machine that has taken the same steps. -/
theorem makeRoom_swap {opNumber : Nat} (run : r.makeRoom opNumber = some r') :
    (r'.stateMachine = r.stateMachine ∧ { r with stateMachine := s }.makeRoom opNumber =
        some { r' with stateMachine := s }) ∨
      ∃ evicted, r'.stateMachine = StateMachine.recordClient r.stateMachine opNumber evicted none ∧
        { r with stateMachine := s }.makeRoom opNumber = some { r' with
          stateMachine := StateMachine.recordClient s opNumber evicted none } := by
  unfold makeRoom at run ⊢
  split at run
  · next full =>
    rw [if_pos full]
    exact .inr (evict_swap s run)
  · next room =>
    rw [if_neg room]
    cases run
    exact .inl ⟨rfl, rfl⟩

/-- A request that finds its session executes as the next one, or the replica panics. -/
theorem execute_next {opNumber clientId session requestNumber answered : Nat} {op : Input SM}
    {reply : Reply (Output SM)} (run : r.execute opNumber = some (r', reply))
    (isEntry : r.entry opNumber = some (.request clientId session requestNumber answered op))
    {record : ClientRecord (Output SM)} (found : r.record clientId = some record)
    (isSession : record.session = session) : requestNumber = record.requestNumber + 1 := by
  have isRecord : (r.clientState clientId).record.filter (·.session = session) = some record := by
    rw [clientState_record]
    exact Option.filter_eq_some_iff.mpr ⟨found, decide_eq_true isSession⟩
  unfold execute at run
  rw [isEntry] at run
  dsimp only [Option.bind_eq_bind, Option.bind_some] at run
  unfold executeRequest at run
  dsimp only at run
  rw [isRecord] at run
  exact (require_eq_some.mp run).1.symm

variable {s} (contract : Contract SM State)

/-- Executing an entry does the same on every state machine of one content. -/
theorem execute_swap (same : contract.content r.stateMachine = contract.content s) {opNumber : Nat}
    {reply : Reply (Output SM)} (run : r.execute opNumber = some (r', reply)) :
    ∃ s', { r with stateMachine := s }.execute opNumber =
        some ({ r' with stateMachine := s' }, reply) ∧
      contract.content r'.stateMachine = contract.content s' ∧
      Took opNumber r.stateMachine r'.stateMachine := by
  unfold execute at run ⊢
  obtain ⟨entry, isEntry, run⟩ := Option.bind_eq_some_iff.mp run
  have isEntry' : { r with stateMachine := s }.entry opNumber = some entry := isEntry
  rw [isEntry']
  dsimp only [Option.bind_eq_bind, Option.bind_some]
  cases entry with
  | register clientId =>
      unfold Replica.register at run ⊢
      have state : { r with stateMachine := s }.clientState clientId = r.clientState clientId := rfl
      dsimp only at run ⊢
      rw [state]
      split at run
      · next record isRecord =>
        cases run
        exact ⟨_, rfl, contract.record_content opNumber clientId _ same, .told _ _ _⟩
      · obtain ⟨room, make, run⟩ := Option.map_eq_some_iff.mp run
        cases run
        rcases makeRoom_swap s make with ⟨machine, makes⟩ | ⟨evicted, machine, makes⟩
        · dsimp only at makes ⊢
          rw [makes]
          refine ⟨_, rfl, ?_, ?_⟩
          · dsimp only [openSession]
            rw [machine]
            exact contract.record_content opNumber clientId _ same
          · dsimp only [openSession]
            rw [machine]
            exact .told _ _ _
        · dsimp only at makes ⊢
          rw [makes]
          refine ⟨_, rfl, ?_, ?_⟩
          · dsimp only [openSession]
            rw [machine]
            exact contract.record_content opNumber clientId _
              (contract.record_content opNumber evicted none same)
          · dsimp only [openSession]
            rw [machine]
            exact .evicts _ _ _ _
  | request clientId session requestNumber answered op =>
      unfold executeRequest at run ⊢
      have state : { r with stateMachine := s }.clientState clientId = r.clientState clientId := rfl
      dsimp only at run ⊢
      rw [state]
      split at run
      · cases run
        exact ⟨_, rfl, contract.record_content opNumber clientId _ same, .told _ _ _⟩
      · next record isRecord =>
        obtain ⟨isNext, run⟩ := require_eq_some.mp run
        cases run
        obtain ⟨content, output⟩ := contract.apply_content opNumber op same
        rw [require_of isNext, ← output]
        unfold runRequest
        dsimp only
        rw [← output]
        exact ⟨_, rfl, contract.record_content opNumber clientId _ content, .applies _ _ _ _⟩

/-- A replica that loads the table of a state machine with the records of the model. -/
theorem follows_load_perm {sound : SM → Prop} {config : Config} {m : Model SM} {opNumber : Nat}
    (isConfig : r.config = config)
    (perm : (StateMachine.clientTable r.stateMachine).Perm (StateMachine.clientTable m.machine))
    (ok : m.Ok sound config opNumber) :
    Follows config { r.loadClientTable with stateMachine := m.machine } m opNumber := by
  have loaded : Follows config { r with stateMachine := m.machine }.loadClientTable m opNumber :=
    follows_load isConfig rfl ok
  have nodup : ((StateMachine.clientTable m.machine).map (·.clientId)).Nodup := by
    refine ((ok.kept.2.map (·.clientId)).nodup_iff).mpr ?_
    have keys : m.table.values.map (·.clientId) = m.table.pairs.map Prod.fst := by
      unfold OrderedMap.values
      rw [List.map_map]
      exact List.map_congr_left fun x mem => ok.table.ids x mem
    rw [keys]
    exact (List.pairwise_map.mpr m.table.sorted).imp ne_of_lt
  have nodup' := ((perm.map (·.clientId)).nodup_iff).mpr nodup
  refine loaded.same ⟨rfl, rfl, fun clientId => Option.ext fun found => ?_, perm.length_eq, rfl⟩
  refine (record_foldl _ ∅ nodup' clientId found).trans ?_
  refine Iff.trans ?_ (record_foldl _ ∅ nodup clientId found).symm
  rw [perm.mem_iff]
  simp [recordIn]

end Replica

end Vsr
