import DualRecovery.InnerProduct
import DualRecovery.ModelFunction.Coefficient
import DualRecovery.Recovery.ReportedDual
import DualRecovery.Settings

/-! The dual of a constraint on single variables, from the stationarity of the model: the gradient
of the objective, minimized, is the sum over all constraints of their adjoints at their duals. For
a variable in just one constraint on single variables, the dual of that one is the reduced cost of
the variable, which is what the affine constraints leave of the gradient. -/

namespace DualRecovery

open Scalar Traced

namespace Settings

variable {α : Type} [Scalar α]

/-- Whether a coefficient of this magnitude counts as zero. A magnitude that is no number does
not. -/
def neglects (s : Settings α) (magnitude : α) : Bool := magnitude ≤ s.zeroTolerance

end Settings

namespace Backend

variable {α : Type} [Scalar α] (b : Backend α) (settings : Settings α) (r : Nat)

/-- The entry for `v` of the gradient of an objective times `sign`. -/
def gradientEntry (sign : α) (v : VariableIndex) : ModelFunction α → Traced α α
  | .singleVariable w => pure (if w = v then sign else 0)
  | .scalarAffine f => pure (sign * f.coefficient v)
  | f => fail (.unsupportedObjective f.kind)

/-- The entry for `v` of the gradient of the objective, minimized. There is no objective at a dual
ray, nor in a feasibility problem. -/
def objectiveGradient (v : VariableIndex) : Traced α α := do
  if (b.dualStatus r).isRay then return 0
  match b.sense with
  | .minimize => gradientEntry 1 v (← ofQuery b.objective)
  | .maximize => gradientEntry (-1) v (← ofQuery b.objective)
  | .feasibility => return 0

/-- Logs and returns a contribution to the dual of `v`. -/
def emitContribution (ci : ConstraintIndex) (v : VariableIndex) (contribution : α) :
    Traced α α := do
  emit (.dualContribution ci v contribution)
  return contribution

/-- The entry for `v` of the adjoint of an affine constraint at its dual. The dual is asked for only
if `v` has a coefficient in the constraint that is not neglected. -/
def adjointEntry (v : VariableIndex) (ci : ConstraintIndex) : Traced α α := do
  match ← ofQuery (b.function ci) with
  | .scalarAffine f =>
    let coefficient := f.coefficient v
    if settings.neglects (magnitude coefficient) then return 0
    let y ← b.reportedScalarDual r ci
    emitContribution ci v (coefficient * y)
  | .vectorAffine f =>
    let column ← ofChecked (f.coefficient v)
    if settings.neglects (largestMagnitude column) then return 0
    let y ← b.reportedVectorDual r ci column.length
    let set ← ofQuery (b.set ci)
    let contribution ← ofChecked (set.innerProduct.dot column y)
    emitContribution ci v contribution
  | _ => fail (.unsupportedConstraint ci.family)

/-- Fails if `other` is a constraint on `v`. -/
def checkUnrelated (excluded : ConstraintIndex) (v : VariableIndex) (other : ConstraintIndex) :
    Traced α Unit := do
  let f ← ofQuery (b.function other)
  if f.mentions v then fail (.ambiguousVariable v excluded other)

/-- The sum of the contributions of a family's constraints. Those on single variables contribute
nothing, and must be on others than `v`. -/
def familyAdjointEntry (excluded : ConstraintIndex) (v : VariableIndex) (family : Family) :
    Traced α α := do
  if family.kind.isQuadratic then fail (.unsupportedConstraint family)
  else if family.kind.isVariableWise then
    ((b.indices family).filter (· ≠ excluded)).forM (b.checkUnrelated excluded v)
    return 0
  else
    (b.indices family).foldlM
      (fun total ci => do return total + (← b.adjointEntry settings r v ci)) 0

/-- The gradient of the objective less the adjoints of the affine constraints, in the entry for `v`.
It is the dual for `v` of `excluded`, the only constraint on single variables that may have `v`. -/
def reducedCost (excluded : ConstraintIndex) (v : VariableIndex) : Traced α α := do
  let gradient ← b.objectiveGradient r v
  b.families.foldlM
    (fun dual family => do
      return dual - (← b.familyAdjointEntry settings r excluded v family)) gradient

/-- The dual of a constraint on single variables. A vector is in the basis of the constraint's set:
its inner product with a value is the dot product of the variables' duals with that value. -/
def stationaryDual (ci : ConstraintIndex) : Traced α (Value α) := do
  match ← ofQuery (b.function ci) with
  | .singleVariable v => return .scalar (← b.reducedCost settings r ci v)
  | .vectorOfVariables vs =>
    let duals ← vs.mapM (b.reducedCost settings r ci)
    let set ← ofQuery (b.set ci)
    return .vector (← ofChecked (set.innerProduct.represent duals))
  | _ => fail (.notVariableWise ci)

end Backend

end DualRecovery
