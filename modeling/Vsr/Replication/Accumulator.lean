import Vsr.Checkpoint.Segments
import Vsr.Replication.Contract

/-!
# The accumulator meets the contract
-/

set_option autoImplicit false

namespace Vsr.Accumulator

/-- What ops and records change. -/
abbrev Content := Int × OrderedMap (ClientRecord Int)

/-- A chunk per client record, then the value. -/
def chunksOf (state : Content) : List Chunk := state.2.values.map .client ++ [.value state.1]

/-- The chunks of a checkpoint, taken in after those before, make its content. -/
theorem takeIn_chunks (clients : OrderedMap (ClientRecord Int)) (value : Int)
    (ids : ∀ x ∈ clients.pairs, x.2.clientId = x.1) (machine : Accumulator)
    (empty : machine.clients = .empty) :
    (chunksOf (value, clients)).foldl takeIn machine = { machine with
      value := value, clients := clients } := by
  have folded : ∀ (records : List (ClientRecord Int)) (machine : Accumulator),
      (records.map Chunk.client).foldl takeIn machine = { machine with
        clients := records.foldl (fun table record => table.insert record.clientId record)
          machine.clients } := by
    intro records
    induction records with
    | nil =>
        intro machine
        rfl
    | cons record rest ih =>
        intro machine
        exact ih (machine.takeIn (.client record))
  have whole : clients.values.foldl (fun table record => table.insert record.clientId record)
      .empty = clients := by
    have inOrder : clients.pairs.Pairwise fun x y => x.2.clientId < y.2.clientId :=
      clients.sorted.imp_of_mem fun isX isY lt => by rwa [ids _ isX, ids _ isY]
    have pairs := OrderedMap.foldl_insert clients.pairs (·.2.clientId) (·.2) inOrder .empty
      fun x mem => by cases mem
    have same : clients.pairs.map (fun x => (x.2.clientId, x.2)) = clients.pairs := by
      refine (List.map_congr_left fun x mem => ?_).trans (List.map_id _)
      rw [ids x mem]
      rfl
    unfold OrderedMap.values
    rw [List.foldl_map]
    exact OrderedMap.ext_pairs (pairs.trans same)
  unfold chunksOf
  rw [List.foldl_append, folded, empty, whole]
  rfl

theorem chunksOf_length (state : Content) : (chunksOf state).length = state.2.values.length + 1 := by
  simp [chunksOf]

/-- The chunks of the checkpoint kept. -/
theorem checkpointChunk_chunksOf {machine : Accumulator} {state : Content} {opNumber index : Nat}
    (keeps : machine.kept = some ⟨state.1, state.2, opNumber⟩)
    (more : index < (chunksOf state).length) :
    (chunksOf state)[index]? = some (StateMachine.checkpointChunk machine index).1 ∧
      ((StateMachine.checkpointChunk machine index).2 = true ↔
        index + 1 = (chunksOf state).length) := by
  rw [chunksOf_length] at more ⊢
  rcases Nat.lt_or_eq_of_le (Nat.le_of_lt_succ more) with before | isLast
  · have found := List.getElem?_eq_getElem before
    have chunk : StateMachine.checkpointChunk machine index =
        (.client state.2.values[index], false) := by
      simp only [StateMachine.checkpointChunk, keeps, found]
    unfold chunksOf
    rw [chunk, List.getElem?_append_left (by simpa using before), List.getElem?_map, found]
    refine ⟨rfl, ?_⟩
    simp only [Bool.false_eq_true, false_iff]
    omega
  · have none : state.2.values[index]? = none := List.getElem?_eq_none isLast.ge
    have chunk : StateMachine.checkpointChunk machine index = (.value state.1, true) := by
      simp only [StateMachine.checkpointChunk, keeps, none]
    unfold chunksOf
    rw [chunk, isLast, List.getElem?_append_right (by simp)]
    simp

/-- All chunks staged of the content of a sound machine, restoring makes it. -/
theorem restore_chunksOf {machine : Accumulator} {opNumber : Nat} {state : Content}
    (ids : ∀ x ∈ state.2.pairs, x.2.clientId = x.1)
    (staged : machine.staged = (chunksOf state).map fun chunk => (opNumber, chunk)) :
    content (StateMachine.restore machine opNumber) = state := by
  have folded : machine.staged.foldl (fun machine staged => machine.takeIn staged.2)
      { machine with clients := .empty, staged := [] } =
        { machine with value := state.1, clients := state.2, staged := [] } := by
    rw [staged, List.foldl_map]
    exact takeIn_chunks state.2 state.1 ids _ rfl
  show content { machine.staged.foldl (fun machine staged => machine.takeIn staged.2)
    { machine with clients := .empty, staged := [] } with lastOp := opNumber } = state
  rw [folded]
  rfl

/-- The accumulator as the library sees it.  It comes back with nothing, or as it was. -/
def contract : Contract Accumulator Content where
  content := content
  chunks := chunksOf
  Sound := Sound
  Past machine history opNumber := machine.lastOp = opNumber ∧ content machine = history opNumber ∧
    history 0 = content new
  Keeps machine opNumber state := machine.kept = some ⟨state.1, state.2, opNumber⟩
  Staged machine opNumber chunks := machine.staged = chunks.map fun chunk => (opNumber, chunk)
  keepsTable := keepsTable
  apply_content opNumber op same := by
    obtain ⟨value, clients⟩ := Prod.mk.inj same
    refine ⟨?_, congrArg op.apply value⟩
    exact Prod.ext (congrArg op.apply value) clients
  record_content opNumber clientId record same := by
    obtain ⟨value, clients⟩ := Prod.mk.inj same
    cases record with
    | none => exact Prod.ext value (congrArg (·.erase clientId) clients)
    | some record => exact Prod.ext value (congrArg (·.insert clientId record) clients)
  query_content _ same := (Prod.mk.inj same).1
  table_content same := List.Perm.of_eq (congrArg (·.values) (Prod.mk.inj same).2)
  past_content past := past.2.1
  past_same past same := ⟨past.1, past.2.1.trans (same _ le_rfl).symm,
    (same 0 (Nat.zero_le _)).trans past.2.2⟩
  past_took past took same := by
    refine ⟨?_, same, past.2.2⟩
    cases took with
    | told clientId record => cases record <;> rfl
    | evicts evicted clientId record => cases record <;> rfl
    | applies op clientId record => cases record <;> rfl
  past_stage _ _ _ past := past
  past_release past := past
  past_checkpoint past := past
  keeps_checkpoint {machine history _} past _ := by
    obtain ⟨rfl, same, _⟩ := past
    show _ = some (Kept.mk (history machine.lastOp).1 (history machine.lastOp).2 machine.lastOp)
    rw [← same]
    rfl
  keeps_took keeps took := by
    cases took with
    | told clientId record => cases record <;> exact keeps
    | evicts evicted clientId record => cases record <;> exact keeps
    | applies op clientId record => cases record <;> exact keeps
  keeps_stage _ _ _ keeps := keeps
  keeps_chunk keeps more := checkpointChunk_chunksOf keeps more
  chunks_some state := by
    rw [chunksOf_length]
    exact Nat.succ_pos _
  staged_first _ _ _ := rfl
  staged_next {machine opNumber staged} chunk isStaged some := by
    have goesOn : staged.length ≠ 0 := fun none => some (List.length_eq_zero_iff.mp none)
    show (if staged.length = 0 then [] else machine.staged) ++ [(opNumber, chunk)] = _
    rw [if_neg goesOn, isStaged, List.map_append]
    rfl
  staged_took staged took := by
    cases took with
    | told clientId record => cases record <;> exact staged
    | evicts evicted clientId record => cases record <;> exact staged
    | applies op clientId record => cases record <;> exact staged
  staged_release staged := staged
  staged_checkpoint staged := staged
  past_restore past _ isSound same staged :=
    ⟨rfl, restore_chunksOf (same ▸ isSound) staged, past.2.2⟩

end Vsr.Accumulator
