/-! The kinds of functions and the tags of sets: what a function or a set is called before its
data are given. -/

namespace DualRecovery

/-- The kinds of functions. -/
inductive FunctionKind where
  | singleVariable
  | vectorOfVariables
  | scalarAffine
  | vectorAffine
  | scalarQuadratic
  | vectorQuadratic
  deriving DecidableEq, Repr

namespace FunctionKind

/-- One variable, or a list of variables. -/
def isVariableWise : FunctionKind → Bool
  | .singleVariable | .vectorOfVariables => true
  | _ => false

def isAffine : FunctionKind → Bool
  | .scalarAffine | .vectorAffine => true
  | _ => false

def isQuadratic : FunctionKind → Bool
  | .scalarQuadratic | .vectorQuadratic => true
  | _ => false

/-- A function of the kind has one number as its value. -/
def isScalar : FunctionKind → Bool
  | .singleVariable | .scalarAffine | .scalarQuadratic => true
  | _ => false

def name : FunctionKind → String
  | .singleVariable => "SingleVariable"
  | .vectorOfVariables => "VectorOfVariables"
  | .scalarAffine => "ScalarAffine"
  | .vectorAffine => "VectorAffine"
  | .scalarQuadratic => "ScalarQuadratic"
  | .vectorQuadratic => "VectorQuadratic"

/-- The place of the kind in the order of kinds. -/
def rank : FunctionKind → Nat
  | .singleVariable => 0
  | .vectorOfVariables => 1
  | .scalarAffine => 2
  | .vectorAffine => 3
  | .scalarQuadratic => 4
  | .vectorQuadratic => 5

theorem isAffine_iff {kind : FunctionKind} :
    kind.isAffine = true ↔ kind.isQuadratic = false ∧ kind.isVariableWise = false := by
  cases kind <;> decide

theorem isQuadratic_of_isVariableWise {kind : FunctionKind} (h : kind.isVariableWise = true) :
    kind.isQuadratic = false := by
  revert h
  cases kind <;> decide

theorem isVariableWise_of_not_isAffine {kind : FunctionKind} (hlinear : kind.isQuadratic = false)
    (h : ¬kind.isAffine = true) : kind.isVariableWise = true := by
  revert hlinear h
  cases kind <;> decide

theorem eq_singleVariable {kind : FunctionKind} (h : kind.isVariableWise = true)
    (hscalar : kind.isScalar = true) : kind = .singleVariable := by
  revert h hscalar
  cases kind <;> decide

end FunctionKind

/-- The tags of sets. -/
inductive SetTag where
  | greaterThan
  | lessThan
  | equalTo
  | interval
  | zeroCone
  | nonnegativeCone
  | nonpositiveCone
  | secondOrderCone
  | exponentialCone
  | powerCone
  | psdTriangleCone
  | rootDetTriangleCone
  | logDetTriangleCone
  deriving DecidableEq, Repr

namespace SetTag

/-- The elements of a set with the tag are numbers. -/
def isScalar : SetTag → Bool
  | .greaterThan | .lessThan | .equalTo | .interval => true
  | _ => false

def name : SetTag → String
  | .greaterThan => "GreaterThan"
  | .lessThan => "LessThan"
  | .equalTo => "EqualTo"
  | .interval => "Interval"
  | .zeroCone => "ZeroCone"
  | .nonnegativeCone => "NonnegativeCone"
  | .nonpositiveCone => "NonpositiveCone"
  | .secondOrderCone => "SecondOrderCone"
  | .exponentialCone => "ExponentialCone"
  | .powerCone => "PowerCone"
  | .psdTriangleCone => "PSDTriangleCone"
  | .rootDetTriangleCone => "RootDetTriangleCone"
  | .logDetTriangleCone => "LogDetTriangleCone"

/-- The place of the tag in the order of tags. -/
def rank : SetTag → Nat
  | .greaterThan => 0
  | .lessThan => 1
  | .equalTo => 2
  | .interval => 3
  | .zeroCone => 4
  | .nonnegativeCone => 5
  | .nonpositiveCone => 6
  | .secondOrderCone => 7
  | .exponentialCone => 8
  | .powerCone => 9
  | .psdTriangleCone => 10
  | .rootDetTriangleCone => 11
  | .logDetTriangleCone => 12

end SetTag

end DualRecovery
