import DualRecovery.Recovery.Error

/-! What is logged: the outcome of an operation, and on the way to it each contribution to a sum. -/

namespace DualRecovery

/-- The four values that a backend may leave to be computed. -/
inductive Quantity where
  | objectiveValue
  | constraintPrimal
  | constraintDual
  | dualObjectiveValue
  deriving DecidableEq, Repr

def Quantity.name : Quantity → String
  | objectiveValue => "objective_value"
  | constraintPrimal => "constraint_primal"
  | constraintDual => "constraint_dual"
  | dualObjectiveValue => "dual_objective_value"

inductive Event (α : Type) where
  /-- A constraint was added to a store. -/
  | constraintAdded (ci : ConstraintIndex)
  /-- What `ci` contributes to the dual of a variable. -/
  | dualContribution (ci : ConstraintIndex) (v : VariableIndex) (contribution : α)
  /-- What `ci` contributes to the dual objective. -/
  | objectiveContribution (ci : ConstraintIndex) (contribution : α)
  /-- A quantity, of a constraint or of the model, was computed at result `r`, or could not be. -/
  | computed (quantity : Quantity) (ci : Option ConstraintIndex) (r : Nat)
      (error : Option RecoveryError)
  deriving DecidableEq, Repr

inductive Level where
  | debug
  | trace
  deriving DecidableEq, Repr

def Level.name : Level → String
  | debug => "DEBUG"
  | trace => "TRACE"

/-- The value of a field of an event. -/
inductive Field (α : Type) where
  | text (s : String)
  | count (n : Nat)
  | scalar (x : α)
  deriving DecidableEq, Repr

namespace Event

variable {α : Type}

/-- Outcomes are debugging information, contributions finer than that. -/
def level : Event α → Level
  | constraintAdded _ | computed _ _ _ _ => .debug
  | dualContribution _ _ _ | objectiveContribution _ _ => .trace

def message : Event α → String
  | constraintAdded _ => "Added constraint"
  | dualContribution _ _ _ => "Dual contribution"
  | objectiveContribution _ _ => "Dual objective contribution"
  | computed _ _ _ none => "Fallback computed"
  | computed _ _ _ (some error) => error.message

def fields : Event α → List (String × Field α)
  | constraintAdded ci =>
    [("component", .text "model"), ("operation", .text "add_constraint"),
      ("status", .text "success"), ("constraint", .text ci.text)]
  | dualContribution ci v contribution =>
    [("component", .text "fallback"), ("operation", .text "variable_dual"),
      ("constraint", .text ci.text), ("variable", .text v.text),
      ("contribution", .scalar contribution)]
  | objectiveContribution ci contribution =>
    [("component", .text "fallback"), ("operation", .text Quantity.dualObjectiveValue.name),
      ("constraint", .text ci.text), ("contribution", .scalar contribution)]
  | computed quantity ci r error =>
    [("component", .text "fallback"), ("operation", .text quantity.name),
      ("status", .text (if error.isSome then "error" else "success"))] ++
      (ci.map fun ci => ("constraint", Field.text ci.text)).toList ++
      [("result_index", .count r)]

end Event

end DualRecovery
