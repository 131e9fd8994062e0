import Vsr.OrderedMap
import Vsr.Types

/-!
# What the committed log does

The plain model that the simulator checks the replicas against, fed the committed
entries in order: which requests execute and with what result, which sessions it
opens, and which it evicts.  The simulator's results are the positions of the
requests among those executed; here a state machine gives them, and is told of the
client records as a replica tells it.
-/

set_option autoImplicit false

namespace Vsr

/-- What the committed log has done so far. -/
structure Model (SM : Type) [StateMachine SM] where
  machine : SM
  /-- The client table after the entries fed. -/
  table : OrderedMap (ClientRecord (Output SM))
  /-- The ops executed, with their op numbers, in order. -/
  executed : List (Nat × Input SM)

namespace Model

variable {SM : Type} [StateMachine SM]

def new (machine : SM) : Model SM := ⟨machine, .empty, []⟩

/-- The first of the pairs with the smallest op number, as `min_by_key` finds it. -/
def minByOpNumber {Output : Type} :
    List (Nat × ClientRecord Output) → Option (Nat × ClientRecord Output)
  | [] => none
  | pair :: rest =>
      match minByOpNumber rest with
      | none => some pair
      | some least => if least.2.opNumber < pair.2.opNumber then some least else some pair

/-- Evicts the session whose latest entry executed earliest, if the table is full. -/
def makeRoom (m : Model SM) (config : Config) (opNumber : Nat) : Option (Model SM) :=
  if config.clientsMax ≤ m.table.pairs.length then
    (minByOpNumber m.table.pairs).map fun evicted =>
      { m with
        machine := StateMachine.recordClient m.machine opNumber evicted.1 none
        table := m.table.erase evicted.1 }
  else some m

/-- Registers `clientId` at `opNumber`, and returns its session. -/
def register (m : Model SM) (config : Config) (opNumber clientId : Nat) :
    Option (Model SM × Nat) :=
  match m.table.get? clientId with
  | some record =>
      some ({ m with machine := StateMachine.recordClient m.machine opNumber clientId (some record) },
        record.session)
  | none =>
      (m.makeRoom config opNumber).map fun m =>
        let record : ClientRecord (Output SM) :=
          { clientId := clientId
            session := opNumber
            requestNumber := 0
            replies := []
            opNumber := opNumber }
        ({ m with
            machine := StateMachine.recordClient m.machine opNumber clientId (some record)
            table := m.table.insert clientId record }, opNumber)

/-- The results kept of a session: at most `kept`, the latest. -/
def keep {Output : Type} (kept : Nat) : List Output → List Output
  | [] => []
  | result :: rest => if kept < (result :: rest).length then keep kept rest else result :: rest

/-- Feeds the entry at `opNumber`, and returns the reply to it in view 0.  A request
executes only as its session's next one. -/
def feed (m : Model SM) (config : Config) (opNumber : Nat) :
    EntryFor SM → Option (Model SM × Reply (Output SM))
  | .register clientId =>
      (m.register config opNumber clientId).map fun (m, session) =>
        (m, .registered 0 clientId session)
  | .request clientId session requestNumber answered op =>
      match (m.table.get? clientId).filter (·.session = session) with
      | none =>
          some ({ m with
              machine := StateMachine.recordClient m.machine opNumber clientId
                (m.table.get? clientId) },
            .evicted 0 clientId session)
      | some record =>
          require (requestNumber = record.requestNumber + 1) <|
            let applied := StateMachine.apply m.machine opNumber op
            let kept := min (max (requestNumber - answered) 1) config.inFlightMax
            let record :=
              { record with
                requestNumber := requestNumber
                replies := keep kept (record.replies ++ [applied.2])
                opNumber := opNumber }
            some ({ machine := StateMachine.recordClient applied.1 opNumber clientId (some record)
                    table := m.table.insert clientId record
                    executed := m.executed ++ [(opNumber, op)] },
              .executed 0 clientId session requestNumber applied.2)

/-- Feeds entries, the first of which is op `opNumber`. -/
def feedAll (config : Config) : Nat → List (EntryFor SM) → Model SM → Option (Model SM)
  | _, [], m => some m
  | opNumber, entry :: rest, m =>
      (m.feed config opNumber entry).bind fun fed => feedAll config (opNumber + 1) rest fed.1

end Model

end Vsr
