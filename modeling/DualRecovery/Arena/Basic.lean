import DualRecovery.Store.Basic
import DualRecovery.Table

/-! A model as it is laid out in memory: the constraints and their families in two tables and a
counter for the numbers of constraints; for each result an array with a slot for every variable.
An arena answers as the store does that it lays out. -/

namespace DualRecovery

/-- What was reported of one result of a model with `n` variables. An empty slot is a value that was
not reported. -/
structure Report (α : Type) (n : Nat) where
  primalStatus : Status
  dualStatus : Status
  primals : Vector (Option α) n
  duals : Assignment ConstraintIndex (Value α)
  deriving DecidableEq, Repr

namespace Report

variable {α : Type} {n : Nat}

def empty (n : Nat) : Report α n := ⟨.noSolution, .noSolution, Vector.replicate n none, .empty⟩

/-- The report of a model that has one more variable. -/
def addVariable (report : Report α n) : Report α (n + 1) :=
  { report with primals := report.primals.push none }

end Report

/-- Variables are numbered from zero, and so are constraints, across their families. A family has
its constraints in the order in which they were added. -/
structure Arena (α : Type) where
  variableCount : Nat
  /-- The number of the next constraint. -/
  nextNumber : Nat
  constraints : Table ConstraintIndex (Constraint α)
  families : Table Family (List ConstraintIndex)
  objective : ModelFunction α
  sense : Sense
  reports : List (Report α variableCount)

namespace Arena

variable {α : Type}

/-- No variables, no constraints, and no objective. -/
def empty [Zero α] : Arena α := ⟨0, 0, .empty, .empty, .scalarAffine ⟨[], 0⟩, .feasibility, []⟩

/-! ### Queries -/

def constraint (a : Arena α) (ci : ConstraintIndex) : Except QueryError (Constraint α) :=
  match a.constraints.get? ci with
  | some c => .ok c
  | none => .error (.invalidConstraint ci)

def report (a : Arena α) (r : Nat) : Except QueryError (Report α a.variableCount) :=
  match a.reports[r]? with
  | some report => .ok report
  | none => .error (.resultOutOfBounds r a.reports.length)

/-- The slot of a variable is read with a proof that the report has it. -/
def primal (a : Arena α) (v : VariableIndex) (r : Nat) : Except QueryError α :=
  if h : v.number < a.variableCount then do
    let report ← a.report r
    match report.primals[v.number] with
    | some x => .ok x
    | none => .error (.noPrimal v)
  else .error (.invalidVariable v)

def dual (a : Arena α) (ci : ConstraintIndex) (r : Nat) : Except QueryError (Value α) := do
  let _ ← a.constraint ci
  let report ← a.report r
  match report.duals.get? ci with
  | some y => .ok y
  | none => .error (.noDual ci)

def indices (a : Arena α) (family : Family) : List ConstraintIndex :=
  (a.families.get? family).getD []

def primalStatus (a : Arena α) (r : Nat) : Status :=
  (a.reports[r]?.map (·.primalStatus)).getD .noSolution

def dualStatus (a : Arena α) (r : Nat) : Status :=
  (a.reports[r]?.map (·.dualStatus)).getD .noSolution

def backend (a : Arena α) : Backend α where
  primal := a.primal
  function ci := (a.constraint ci).map (·.function)
  set ci := (a.constraint ci).map (·.set)
  indices := a.indices
  families := a.families.keys
  objective := .ok a.objective
  sense := a.sense
  primalStatus := a.primalStatus
  dualStatus := a.dualStatus
  dual := a.dual

end Arena

end DualRecovery
