import DualRecovery.Recovery.ReducedCost

/-! The value of the dual objective. A constraint `f(x)` in a set contributes `⟨b - c, y⟩`, with `b`
the bound of the set, `c` the constant of `f` and `y` the dual. -/

namespace DualRecovery

open Scalar Traced

/-- The bound of a set of numbers that is active at the dual `y`. For an interval the sign of `y`
tells the side; a bound that is not active may be infinite. `none` is no such set. -/
def ConstraintSet.activeBound? {α : Type} [Scalar α] (y : α) :
    ConstraintSet α → Option (Option α)
  | .greaterThan c | .lessThan c | .equalTo c => some (some c)
  | .interval lower upper => some (if 0 < y then some lower else if y < 0 then some upper else none)
  | _ => none

namespace RecoveryError

/-- The backend has no such value to report. -/
def isNotAvailable : RecoveryError → Bool
  | query cause => cause.isNotAvailable
  | _ => false

end RecoveryError

namespace Backend

variable {α : Type} [Scalar α] (b : Backend α) (settings : Settings α) (r : Nat)

/-- The dual of a scalar constraint, recovered if it is not reported and the constraint is on a
single variable. -/
def scalarDualOrRecovered (ci : ConstraintIndex) : Traced α α :=
  (b.reportedScalarDual r ci).recover fun error =>
    if error.isNotAvailable ∧ ci.family.kind.isVariableWise then
      some do
        let y ← b.stationaryDual settings r ci
        asScalarDual ci y
    else none

/-- What a constraint contributes, computed from its parts. -/
def dualTerm (ci : ConstraintIndex) (set : ConstraintSet α) : Value α → Traced α α
  | .scalar constant => do
    let y ← b.scalarDualOrRecovered settings r ci
    match set.activeBound? y with
    | none => fail (.unsupportedConstraint ci.family)
    | some none => return 0
    | some (some bound) => return (bound - constant) * y
  | .vector constants => do
    let y ← b.reportedVectorDual r ci constants.length
    return -(← ofChecked (set.innerProduct.dot constants y))

def loggedDualTerm (ci : ConstraintIndex) : Traced α α := do
  let function ← ofQuery (b.function ci)
  let set ← ofQuery (b.set ci)
  let contribution ← b.dualTerm settings r ci set function.constant
  emit (.objectiveContribution ci contribution)
  return contribution

/-- Adds the contributions of a family's constraints to `value`. Lists of variables have neither a
constant nor a bound. -/
def addFamilyDualObjective (value : α) (family : Family) : Traced α α := do
  if family.kind.isQuadratic then fail (.unsupportedConstraint family)
  else if family.kind = .vectorOfVariables then return value
  else
    (b.indices family).foldlM
      (fun value ci => do return value + (← b.loggedDualTerm settings r ci)) value

/-- The constant of an objective with a dual. -/
def objectiveConstant : ModelFunction α → Traced α α
  | .singleVariable _ => pure 0
  | .scalarAffine f => pure f.constant
  | f => fail (.unsupportedObjective f.kind)

/-- The dual objective in the sense of the model. -/
def dualObjective : Traced α α := do
  let sum ← b.families.foldlM (b.addFamilyDualObjective settings r) 0
  let value := if b.sense = .maximize then -sum else sum
  if b.sense = .feasibility ∨ (b.dualStatus r).isRay then return value
  return value + (← objectiveConstant (← ofQuery b.objective))

end Backend

end DualRecovery
