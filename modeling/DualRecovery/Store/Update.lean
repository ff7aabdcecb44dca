import DualRecovery.Store.Basic

/-! The changes of a store. Each gives its answer together with the store after it. A change that
may be refused is checked first, and the check may fault, on numbers that are no words; what is not
carried out leaves the store as it was. -/

namespace DualRecovery

namespace Constraint

variable {α : Type}

/-- Whether a value has the shape of the constraint's duals: a number for a scalar function, and
for another a vector of the dimension of the set. -/
def admits (c : Constraint α) : Value α → Bool
  | .scalar _ => c.function.kind.isScalar
  | .vector ys => !c.function.kind.isScalar && ys.length == c.set.dimension

/-- The value has the shape of the constraint's duals. -/
def verifyDual (c : Constraint α) (y : Value α) : Except (Failure QueryError) Unit := do
  let dimension ← orFault c.set.size
  if c.admits y then .ok () else .error (.error (.dimensionMismatch dimension y.length))

end Constraint

namespace Store

variable {α : Type}

/-! ### Checks -/

/-- The last of the rows with terms is one that a function of the dimension has. -/
def verifyRow (dimension : Nat) : (last? : Option Nat) → Except (Failure QueryError) Unit
  | none => .ok ()
  | some row =>
    if row < dimension then .ok ()
    else do
      let needed ← orFault (Word.ofNat (row + 1))
      .error (.error (.dimensionMismatch dimension needed))

/-- All variables exist, and no term is in a row that the function does not have. -/
def verifyFunction (m : Store α) (f : ModelFunction α) : Except (Failure QueryError) Unit := do
  orError (f.distinctVariables.forM m.verifyVariable)
  verifyRow f.dimension f.rows.max?

/-- The function is valid, and its values and the elements of the set have one shape. -/
def verifyConstraint (m : Store α) (c : Constraint α) : Except (Failure QueryError) Unit := do
  m.verifyFunction c.function
  if c.function.kind.isScalar ≠ c.set.isScalar then
    .error (.error (.incompatibleSet c.function.kind c.set.tag))
  else
    let dimension ← orFault c.set.size
    if c.function.dimension ≠ dimension then
      .error (.error (.dimensionMismatch dimension c.function.dimension))
    else .ok ()

def verifyPrimals (m : Store α) (values : List α) : Except QueryError Unit :=
  if values.length = m.variableCount then .ok ()
  else .error (.dimensionMismatch m.variableCount values.length)

def verifyDual (m : Store α) (ci : ConstraintIndex) (y : Value α) :
    Except (Failure QueryError) Unit := do
  let c ← orError (m.constraint ci)
  c.verifyDual y

/-! ### Changes -/

/-- Carries out `change` if the check passes. -/
def checked {β : Type} (m : Store α) (check : Except (Failure QueryError) Unit)
    (change : Store α → β × Store α) : Except (Failure QueryError) β × Store α :=
  match check with
  | .ok () =>
    let (b, m) := change m
    (.ok b, m)
  | .error failure => (.error failure, m)

def addVariable (m : Store α) : VariableIndex × Store α :=
  (⟨m.variableCount⟩, { m with variableCount := m.variableCount + 1 })

def addVariables (m : Store α) : (count : Nat) → List VariableIndex × Store α
  | 0 => ([], m)
  | count + 1 =>
    let (v, m) := m.addVariable
    let (vs, m) := m.addVariables count
    (v :: vs, m)

/-- The number of a constraint is the number of those before it. -/
def addConstraint (m : Store α) (function : ModelFunction α) (set : ConstraintSet α) :
    Except (Failure QueryError) ConstraintIndex × Store α :=
  let c : Constraint α := ⟨function, set⟩
  m.checked (m.verifyConstraint c) fun m =>
    (⟨c.family, m.constraints.length⟩, { m with constraints := m.constraints ++ [c] })

def setObjective (m : Store α) (sense : Sense) (objective : ModelFunction α) :
    Except (Failure QueryError) Unit × Store α :=
  m.checked (m.verifyFunction objective) fun m => ((), { m with sense, objective })

/-- Changes result `r`. Where there are not so many results yet, empty ones come before it. -/
def modifyResult (m : Store α) (r : Nat) (change : Result α → Result α) : Store α :=
  let results := m.results ++ List.replicate (r + 1 - m.results.length) Result.empty
  { m with results := results.modify r change }

def reportPrimalStatus (m : Store α) (r : Nat) (status : Status) : Store α :=
  m.modifyResult r ({ · with primalStatus := status })

def reportDualStatus (m : Store α) (r : Nat) (status : Status) : Store α :=
  m.modifyResult r ({ · with dualStatus := status })

def reportPrimal (m : Store α) (r : Nat) (v : VariableIndex) (x : α) :
    Except (Failure QueryError) Unit × Store α :=
  m.checked (orError (m.verifyVariable v)) fun m =>
    ((), m.modifyResult r fun result => { result with primals := result.primals.set v x })

/-- Reports the primal values of all variables, in order. -/
def reportPrimals (m : Store α) (r : Nat) (values : List α) :
    Except (Failure QueryError) Unit × Store α :=
  let pairs := values.zipIdx.map fun x => (⟨x.2⟩, x.1)
  m.checked (orError (m.verifyPrimals values)) fun m =>
    ((), m.modifyResult r fun result => { result with primals := result.primals.setAll pairs })

def reportDual (m : Store α) (r : Nat) (ci : ConstraintIndex) (y : Value α) :
    Except (Failure QueryError) Unit × Store α :=
  m.checked (m.verifyDual ci y) fun m =>
    ((), m.modifyResult r fun result => { result with duals := result.duals.set ci y })

theorem length_results_modifyResult (m : Store α) (r : Nat) (change : Result α → Result α) :
    (m.modifyResult r change).results.length = max m.results.length (r + 1) := by
  simp [modifyResult]; omega

theorem getElem?_results_modifyResult (m : Store α) (r s : Nat) (change : Result α → Result α) :
    (m.modifyResult r change).results[s]? =
      if s = r then some (change (m.results[r]?.getD .empty))
      else if s < m.results.length then m.results[s]?
      else if s < r then some .empty else none := by
  simp only [modifyResult, List.getElem?_modify, List.getElem?_append, List.getElem?_replicate]
  grind

end Store

end DualRecovery
