import Vsr.OrderedMap
import Vsr.Types

/-!
# The accumulator

The state machine of the cluster tests: a number that ops add to and subtract
from.  It meets what the library asks of a state machine.
-/

set_option autoImplicit false

namespace Vsr

namespace Accumulator

inductive Op where
  | add (operand : Int)
  | sub (operand : Int)
  deriving DecidableEq, Repr

def Op.apply : Op → Int → Int
  | .add operand, value => value + operand
  | .sub operand, value => value - operand

/-- A checkpoint comes as a chunk per client record, then its value. -/
inductive Chunk where
  | client (record : ClientRecord Int)
  | value (value : Int)
  deriving DecidableEq, Repr

/-- What a checkpoint keeps. -/
structure Kept where
  value : Int
  clients : OrderedMap (ClientRecord Int)
  lastOp : Nat

end Accumulator

structure Accumulator where
  value : Int
  clients : OrderedMap (ClientRecord Int)
  /-- The last op number handed over. -/
  lastOp : Nat
  /-- The checkpoint kept for replicas that fell behind. -/
  kept : Option Accumulator.Kept
  /-- The chunks staged of another replica's checkpoint, with its op number. -/
  staged : List (Nat × Accumulator.Chunk)

namespace Accumulator

def new : Accumulator := ⟨0, .empty, 0, none, []⟩

/-- Three replicas. -/
def config : Config := Config.new.addReplica.addReplica.addReplica

/-- Takes a chunk in. -/
def takeIn (machine : Accumulator) : Chunk → Accumulator
  | .client record => { machine with clients := machine.clients.insert record.clientId record }
  | .value value => { machine with value := value }

instance : StateMachine Accumulator where
  Input := Op
  Query := Unit
  Output := Int
  Chunk := Chunk
  apply machine opNumber op :=
    ({ machine with value := op.apply machine.value, lastOp := opNumber }, op.apply machine.value)
  query machine _ := machine.value
  recordClient machine opNumber clientId
    | some record =>
        { machine with clients := machine.clients.insert clientId record, lastOp := opNumber }
    | none => { machine with clients := machine.clients.erase clientId, lastOp := opNumber }
  clientTable machine := machine.clients.values
  checkpoint machine :=
    ({ machine with kept := some ⟨machine.value, machine.clients, machine.lastOp⟩ }, machine.lastOp)
  checkpointChunk machine index :=
    match machine.kept with
    | none => (.value 0, true)
    | some kept =>
        match kept.clients.values[index]? with
        | some record => (.client record, false)
        | none => (.value kept.value, true)
  releaseCheckpoint machine := { machine with kept := none }
  stageChunk machine opNumber index chunk :=
    { machine with staged := (if index = 0 then [] else machine.staged) ++ [(opNumber, chunk)] }
  restore machine opNumber :=
    { machine.staged.foldl (fun machine staged => machine.takeIn staged.2)
        { machine with clients := .empty, staged := [] } with lastOp := opNumber }

end Accumulator

end Vsr
