import DualRecovery.ModelFunction.Basic
import DualRecovery.ConstraintSet
import DualRecovery.Status
import DualRecovery.QueryError

/-! A model as others see it: the answers to the queries from which values are recovered. Nothing
is assumed of them; a backend may contradict itself. -/

namespace DualRecovery

/-- Results are numbered from zero. -/
structure Backend (α : Type) where
  primal : VariableIndex → Nat → Except QueryError α
  function : ConstraintIndex → Except QueryError (ModelFunction α)
  set : ConstraintIndex → Except QueryError (ConstraintSet α)
  indices : Family → List ConstraintIndex
  families : List Family
  objective : Except QueryError (ModelFunction α)
  sense : Sense
  primalStatus : Nat → Status
  dualStatus : Nat → Status
  dual : ConstraintIndex → Nat → Except QueryError (Value α)

namespace Backend

variable {α : Type}

def objectiveKind (b : Backend α) : Except QueryError FunctionKind :=
  b.objective.map ModelFunction.kind

end Backend

end DualRecovery
