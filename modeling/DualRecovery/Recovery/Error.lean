import DualRecovery.QueryError

/-! Why a value cannot be recovered. -/

namespace DualRecovery

inductive RecoveryError where
  | unsupportedObjective (kind : FunctionKind)
  | unsupportedConstraint (family : Family)
  /-- The variable of `ci` is also in `other`, and the two duals cannot be told apart. -/
  | ambiguousVariable (v : VariableIndex) (ci other : ConstraintIndex)
  | notVariableWise (ci : ConstraintIndex)
  | dimensionMismatch (ci : ConstraintIndex) (expected found : Nat)
  | query (cause : QueryError)
  deriving DecidableEq, Repr

namespace RecoveryError

def message : RecoveryError → String
  | unsupportedObjective kind =>
    "Fallback is not supported for objective functions of kind " ++ kind.name
  | unsupportedConstraint family =>
    "Fallback is not supported for constraints of family " ++ family.text
  | ambiguousVariable v ci other =>
    "Variable " ++ v.text ++ " of constraint " ++ ci.text ++ " is also constrained by " ++
      other.text ++ "; cannot attribute its dual"
  | notVariableWise ci => "Constraint " ++ ci.text ++ " is not variable-wise"
  | dimensionMismatch ci expected found =>
    "Value of constraint " ++ ci.text ++ " has dimension " ++ found.repr ++ ", expected " ++
      expected.repr
  | query cause => cause.message

end RecoveryError

end DualRecovery
