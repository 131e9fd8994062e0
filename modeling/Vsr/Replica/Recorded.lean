import Vsr.Types

/-!
# A state machine that records what it is called for
-/

set_option autoImplicit false

namespace Vsr

/-- A call that changes a state machine. -/
inductive MachineCall (SM : Type) [StateMachine SM] where
  | apply (opNumber : Nat) (op : Input SM)
  | recordClient (opNumber clientId : Nat) (record : Option (ClientRecord (Output SM)))
  | checkpoint
  | releaseCheckpoint
  | stageChunk (opNumber index : Nat) (chunk : Chunk SM)
  | restore (opNumber : Nat)

/-- A state machine with the calls made to it so far. -/
structure Recorded (SM : Type) [StateMachine SM] where
  machine : SM
  calls : List (MachineCall SM)

namespace Recorded

variable {SM : Type} [StateMachine SM]

instance : StateMachine (Recorded SM) where
  Input := Input SM
  Query := Query SM
  Output := Output SM
  Chunk := Chunk SM
  apply m opNumber op :=
    let applied := StateMachine.apply m.machine opNumber op
    (⟨applied.1, m.calls ++ [.apply opNumber op]⟩, applied.2)
  query m query := StateMachine.query m.machine query
  recordClient m opNumber clientId record :=
    ⟨StateMachine.recordClient m.machine opNumber clientId record,
      m.calls ++ [.recordClient opNumber clientId record]⟩
  clientTable m := StateMachine.clientTable m.machine
  checkpoint m :=
    let kept := StateMachine.checkpoint m.machine
    (⟨kept.1, m.calls ++ [.checkpoint]⟩, kept.2)
  checkpointChunk m index := StateMachine.checkpointChunk m.machine index
  releaseCheckpoint m :=
    ⟨StateMachine.releaseCheckpoint m.machine, m.calls ++ [.releaseCheckpoint]⟩
  stageChunk m opNumber index chunk :=
    ⟨StateMachine.stageChunk m.machine opNumber index chunk,
      m.calls ++ [.stageChunk opNumber index chunk]⟩
  restore m opNumber := ⟨StateMachine.restore m.machine opNumber, m.calls ++ [.restore opNumber]⟩

/-- The ops applied, with their op numbers. -/
def applies (calls : List (MachineCall SM)) : List (Nat × Input SM) :=
  calls.filterMap fun call =>
    match call with
    | .apply opNumber op => some (opNumber, op)
    | _ => none

end Recorded

end Vsr
