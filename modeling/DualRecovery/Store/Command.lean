import DualRecovery.Store.Update

/-! The changes of a store as data, and the runs of several. -/

namespace DualRecovery

inductive Command (α : Type) where
  | addVariable
  | addVariables (count : Nat)
  | addConstraint (function : ModelFunction α) (set : ConstraintSet α)
  | setObjective (sense : Sense) (objective : ModelFunction α)
  | reportPrimalStatus (r : Nat) (status : Status)
  | reportDualStatus (r : Nat) (status : Status)
  | reportPrimal (r : Nat) (v : VariableIndex) (x : α)
  | reportPrimals (r : Nat) (values : List α)
  | reportDual (r : Nat) (ci : ConstraintIndex) (y : Value α)
  deriving DecidableEq, Repr

/-- The answer to a command that was carried out. -/
inductive Reply where
  | newVariable (v : VariableIndex)
  | newVariables (vs : List VariableIndex)
  | newConstraint (ci : ConstraintIndex)
  | done
  deriving DecidableEq, Repr

namespace Store

variable {α : Type}

def run (m : Store α) : Command α → Except (Failure QueryError) Reply × Store α
  | .addVariable =>
    let (v, m) := m.addVariable
    (.ok (.newVariable v), m)
  | .addVariables count =>
    let (vs, m) := m.addVariables count
    (.ok (.newVariables vs), m)
  | .addConstraint function set =>
    let (answer, m) := m.addConstraint function set
    (answer.map .newConstraint, m)
  | .setObjective sense objective =>
    let (answer, m) := m.setObjective sense objective
    (answer.map fun _ => .done, m)
  | .reportPrimalStatus r status => (.ok .done, m.reportPrimalStatus r status)
  | .reportDualStatus r status => (.ok .done, m.reportDualStatus r status)
  | .reportPrimal r v x =>
    let (answer, m) := m.reportPrimal r v x
    (answer.map fun _ => .done, m)
  | .reportPrimals r values =>
    let (answer, m) := m.reportPrimals r values
    (answer.map fun _ => .done, m)
  | .reportDual r ci y =>
    let (answer, m) := m.reportDual r ci y
    (answer.map fun _ => .done, m)

/-- The store after the commands, some of which may have been refused. -/
def runAll (m : Store α) (commands : List (Command α)) : Store α :=
  commands.foldl (fun m command => (m.run command).2) m

/-- A store that commands can bring about. -/
def Reachable [Zero α] (m : Store α) : Prop := ∃ commands, m = runAll empty commands

end Store

end DualRecovery
