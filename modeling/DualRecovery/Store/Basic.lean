import DualRecovery.Assignment
import DualRecovery.Backend

/-! A model held in memory: its variables, its constraints in the order in which they were added,
its objective, and the results that were reported for it. -/

namespace DualRecovery

/-- `function` lies in `set`. -/
structure Constraint (α : Type) where
  function : ModelFunction α
  set : ConstraintSet α
  deriving DecidableEq, Repr

namespace Constraint

def family {α : Type} (c : Constraint α) : Family := ⟨c.function.kind, c.set.tag⟩

end Constraint

/-- What was reported of one result. -/
structure Result (α : Type) where
  primalStatus : Status
  dualStatus : Status
  primals : Assignment VariableIndex α
  duals : Assignment ConstraintIndex (Value α)
  deriving DecidableEq, Repr

namespace Result

def empty {α : Type} : Result α := ⟨.noSolution, .noSolution, .empty, .empty⟩

end Result

/-- Variables and constraints are numbered from zero, constraints across their families. -/
structure Store (α : Type) where
  variableCount : Nat
  constraints : List (Constraint α)
  objective : ModelFunction α
  sense : Sense
  results : List (Result α)
  deriving DecidableEq, Repr

namespace Store

variable {α : Type}

/-- No variables, no constraints, and no objective. -/
def empty [Zero α] : Store α := ⟨0, [], .scalarAffine ⟨[], 0⟩, .feasibility, []⟩

/-- The constraint with the number of the index, if it is of its family. -/
def constraint? (m : Store α) (ci : ConstraintIndex) : Option (Constraint α) :=
  m.constraints[ci.number]?.filter (·.family = ci.family)

/-! ### Queries -/

def verifyVariable (m : Store α) (v : VariableIndex) : Except QueryError Unit :=
  if v.number < m.variableCount then .ok () else .error (.invalidVariable v)

def constraint (m : Store α) (ci : ConstraintIndex) : Except QueryError (Constraint α) :=
  match m.constraint? ci with
  | some c => .ok c
  | none => .error (.invalidConstraint ci)

def result (m : Store α) (r : Nat) : Except QueryError (Result α) :=
  match m.results[r]? with
  | some result => .ok result
  | none => .error (.resultOutOfBounds r m.results.length)

def primal (m : Store α) (v : VariableIndex) (r : Nat) : Except QueryError α := do
  m.verifyVariable v
  let result ← m.result r
  match result.primals.get? v with
  | some x => .ok x
  | none => .error (.noPrimal v)

def dual (m : Store α) (ci : ConstraintIndex) (r : Nat) :
    Except QueryError (Value α) := do
  let _ ← m.constraint ci
  let result ← m.result r
  match result.duals.get? ci with
  | some y => .ok y
  | none => .error (.noDual ci)

/-- The families that have constraints, by their first ones. -/
def families (m : Store α) : List Family := (m.constraints.map (·.family)).eraseDups

/-- The constraints of a family, in the order in which they were added. -/
def indices (m : Store α) (family : Family) : List ConstraintIndex :=
  (m.constraints.zipIdx.filter (·.1.family = family)).map fun c => ⟨family, c.2⟩

def primalStatus (m : Store α) (r : Nat) : Status :=
  (m.results[r]?.map (·.primalStatus)).getD .noSolution

def dualStatus (m : Store α) (r : Nat) : Status :=
  (m.results[r]?.map (·.dualStatus)).getD .noSolution

def backend (m : Store α) : Backend α where
  primal := m.primal
  function ci := (m.constraint ci).map (·.function)
  set ci := (m.constraint ci).map (·.set)
  indices := m.indices
  families := m.families
  objective := .ok m.objective
  sense := m.sense
  primalStatus := m.primalStatus
  dualStatus := m.dualStatus
  dual := m.dual

end Store

end DualRecovery
