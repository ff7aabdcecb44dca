import DualRecovery.ModelFunction.Basic

/-! The coefficient of one variable in an affine function: a number for a scalar function, the
column of the function's matrix for a vector function. -/

namespace DualRecovery

variable {α : Type} [Scalar α]

/-- The sum of the coefficients of the terms in `v`, from the left. -/
def ScalarAffine.coefficient (f : ScalarAffine α) (v : VariableIndex) : α :=
  (f.terms.filter (·.mentions v)).foldl (fun sum t => sum + t.coefficient) 0

/-- One entry for each row. A term in `v` in a row that the function does not have is a fault. -/
def VectorAffine.coefficient (f : VectorAffine α) (v : VariableIndex) : Except Fault (List α) :=
  (f.terms.filter (·.term.mentions v)).foldlM
    (fun column t => addAt column t.row t.term.coefficient) (List.replicate f.constants.length 0)

end DualRecovery
