import DualRecovery.ModelFunction.Evaluate
import DualRecovery.Recovery.DualObjective

/-! The four values that a backend may leave to be computed from the rest. Each ends its log with
one event that tells the outcome; a fault tells nothing. -/

namespace DualRecovery

open Traced

/-- `x` with its outcome as the last event. -/
def Traced.concluded {α β : Type} (x : Traced α β) (quantity : Quantity)
    (ci : Option ConstraintIndex) (r : Nat) : Traced α β :=
  match x.outcome with
  | .ok _ => ⟨x.log ++ [.event (.computed quantity ci r none)], x.outcome⟩
  | .error (.error error) => ⟨x.log ++ [.event (.computed quantity ci r (some error))], x.outcome⟩
  | .error (.fault _) => x

namespace Backend

variable {α : Type} [Scalar α] (b : Backend α) (settings : Settings α) (r : Nat)

/-- The status is asked for, and logged, only where it matters. -/
def omitsConstant : Traced α Bool :=
  if settings.omitsRayConstant then do
    note (.query (.primalStatus r))
    return (b.primalStatus r).isRay
  else return false

/-- The value of a function at the reported point. A ray is a direction: under the policy for it,
the constant is taken off again. -/
def valueAtPoint (f : ModelFunction α) : Traced α (Value α) := do
  let value ← ofEvaluation (f.evaluate fun v => b.primal v r)
  if ← b.omitsConstant settings r then ofChecked (value.subtract f.constant)
  else return value

def objectiveValue : Traced α (Value α) :=
  (do b.valueAtPoint settings r (← ofQuery b.objective) : Traced α (Value α)).concluded
    .objectiveValue none r

def constraintValue (ci : ConstraintIndex) : Traced α (Value α) :=
  (do b.valueAtPoint settings r (← ofQuery (b.function ci)) :
    Traced α (Value α)).concluded .constraintPrimal (some ci) r

/-- The dual of a constraint on single variables, as if it were not reported. -/
def recoverDual (ci : ConstraintIndex) : Traced α (Value α) :=
  (b.stationaryDual settings r ci).concluded .constraintDual (some ci) r

def dualObjectiveValue : Traced α α :=
  (b.dualObjective settings r).concluded .dualObjectiveValue none r

end Backend

end DualRecovery
