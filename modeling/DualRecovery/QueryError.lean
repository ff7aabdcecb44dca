import DualRecovery.Index

/-! The errors with which a model answers. -/

namespace DualRecovery

inductive QueryError where
  | invalidVariable (v : VariableIndex)
  | invalidConstraint (ci : ConstraintIndex)
  | resultOutOfBounds (index count : Nat)
  | valueNotAvailable (what item : String)
  | dimensionMismatch (expected found : Nat)
  | incompatibleSet (kind : FunctionKind) (tag : SetTag)
  deriving DecidableEq, Repr

namespace QueryError

/-- The primal value of `v` is not reported. -/
def noPrimal (v : VariableIndex) : QueryError := valueNotAvailable "primal value" v.text

/-- The dual of `ci` is not reported. -/
def noDual (ci : ConstraintIndex) : QueryError := valueNotAvailable "dual value" ci.text

def isNotAvailable : QueryError → Bool
  | valueNotAvailable _ _ => true
  | _ => false

def message : QueryError → String
  | invalidVariable v => "Invalid variable index " ++ v.text
  | invalidConstraint ci => "Invalid constraint index " ++ ci.text
  | resultOutOfBounds index count =>
    "Result index " ++ index.repr ++ " out of bounds (" ++ count.repr ++ " results available)"
  | valueNotAvailable what item => "No " ++ what ++ " available for " ++ item
  | dimensionMismatch expected found =>
    "Incompatible dimensions (expected " ++ expected.repr ++ ", found " ++ found.repr ++ ")"
  | incompatibleSet kind tag =>
    kind.name ++ " function is incompatible with " ++ tag.name ++ " set"

end QueryError

end DualRecovery
