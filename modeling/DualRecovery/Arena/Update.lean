import DualRecovery.Arena.Basic
import DualRecovery.Store.Update
import DualRecovery.Trace.Event

/-! The changes of an arena. Those that may be refused are checked before anything is written, and
come to an answer, the arena after it, and the events that are emitted: one for a constraint that
is added, and none for all else. -/

namespace DualRecovery

namespace Report

variable {α : Type} {n : Nat}

/-- Changes report `r`. Where there are not so many reports yet, empty ones come before it, with
slots for the variables that there are. -/
def modifyAt (r : Nat) (change : Report α n → Report α n) (reports : List (Report α n)) :
    List (Report α n) :=
  (reports ++ List.replicate (r + 1 - reports.length) (empty n)).modify r change

theorem length_modifyAt (r : Nat) (change : Report α n → Report α n)
    (reports : List (Report α n)) :
    (modifyAt r change reports).length = max reports.length (r + 1) := by
  simp [modifyAt]; omega

theorem getElem?_modifyAt (r s : Nat) (change : Report α n → Report α n)
    (reports : List (Report α n)) :
    (modifyAt r change reports)[s]? =
      if s = r then some (change (reports[r]?.getD (empty n)))
      else if s < reports.length then reports[s]?
      else if s < r then some (empty n) else none := by
  simp only [modifyAt, List.getElem?_modify, List.getElem?_append, List.getElem?_replicate]
  grind

end Report

/-- What a change comes to. -/
structure Outcome (α β : Type) where
  answer : Except (Failure QueryError) β
  arena : Arena α
  events : List (Event α)

/-- The outcome with its answer, if it is no failure, in other terms. -/
def Outcome.map {α β γ : Type} (f : β → γ) (outcome : Outcome α β) : Outcome α γ :=
  { outcome with answer := outcome.answer.map f }

namespace Arena

variable {α : Type}

/-! ### Checks -/

/-- What functions are checked against: the variables, without constraints and results. -/
def outline (a : Arena α) : Store α := ⟨a.variableCount, [], a.objective, a.sense, []⟩

def verifyDual (a : Arena α) (ci : ConstraintIndex) (y : Value α) :
    Except (Failure QueryError) Unit := do
  let c ← orError (a.constraint ci)
  c.verifyDual y

/-! ### Changes -/

/-- Nothing is changed, and the answer is a failure. -/
def refuse {β : Type} (a : Arena α) (failure : Failure QueryError) : Outcome α β :=
  ⟨.error failure, a, []⟩

/-- Carries out `change` if the check passes. -/
def checked {β : Type} (a : Arena α) (check : Except (Failure QueryError) Unit)
    (change : Arena α → Outcome α β) : Outcome α β :=
  match check with
  | .ok () => change a
  | .error failure => a.refuse failure

theorem checked_cases {β : Type} (a : Arena α) (check : Except (Failure QueryError) Unit)
    (change : Arena α → Outcome α β) :
    (∃ failure, check = .error failure ∧ a.checked check change = a.refuse failure) ∨
      (check = .ok () ∧ a.checked check change = change a) := by
  cases check with
  | error failure => exact Or.inl ⟨failure, rfl, rfl⟩
  | ok u => exact Or.inr ⟨rfl, rfl⟩

/-- Every report gets a slot for the new variable. -/
def addVariable (a : Arena α) : VariableIndex × Arena α :=
  (⟨a.variableCount⟩,
    { a with variableCount := a.variableCount + 1, reports := a.reports.map (·.addVariable) })

def addVariables (a : Arena α) : (count : Nat) → List VariableIndex × Arena α
  | 0 => ([], a)
  | count + 1 =>
    let (v, a) := a.addVariable
    let (vs, a) := a.addVariables count
    (v :: vs, a)

/-- The new index goes to both tables. -/
def insertConstraint (a : Arena α) (c : Constraint α) : Outcome α ConstraintIndex :=
  let ci : ConstraintIndex := ⟨c.family, a.nextNumber⟩
  { answer := .ok ci
    arena :=
      { a with
        nextNumber := a.nextNumber + 1
        families := a.families.update c.family fun indices => indices.getD [] ++ [ci]
        constraints := a.constraints.insert ci c }
    events := [.constraintAdded ci] }

def addConstraint (a : Arena α) (function : ModelFunction α) (set : ConstraintSet α) :
    Outcome α ConstraintIndex :=
  a.checked (a.outline.verifyConstraint ⟨function, set⟩) (·.insertConstraint ⟨function, set⟩)

def setObjective (a : Arena α) (sense : Sense) (objective : ModelFunction α) : Outcome α Unit :=
  a.checked (a.outline.verifyFunction objective) fun a => ⟨.ok (), { a with sense, objective }, []⟩

def modifyReport (a : Arena α) (r : Nat)
    (change : Report α a.variableCount → Report α a.variableCount) : Arena α :=
  { a with reports := Report.modifyAt r change a.reports }

def reportPrimalStatus (a : Arena α) (r : Nat) (status : Status) : Arena α :=
  a.modifyReport r ({ · with primalStatus := status })

def reportDualStatus (a : Arena α) (r : Nat) (status : Status) : Arena α :=
  a.modifyReport r ({ · with dualStatus := status })

def reportPrimal (a : Arena α) (r : Nat) (v : VariableIndex) (x : α) : Outcome α Unit :=
  if h : v.number < a.variableCount then
    ⟨.ok (), a.modifyReport r fun report =>
      { report with primals := report.primals.set v.number (some x) }, []⟩
  else a.refuse (.error (.invalidVariable v))

/-- Fills the slots of all variables, in order. -/
def reportPrimals (a : Arena α) (r : Nat) (values : List α) : Outcome α Unit :=
  if h : values.length = a.variableCount then
    ⟨.ok (), a.modifyReport r fun report =>
      { report with primals := ⟨(values.map some).toArray, by simp [h]⟩ }, []⟩
  else a.refuse (.error (.dimensionMismatch a.variableCount values.length))

def reportDual (a : Arena α) (r : Nat) (ci : ConstraintIndex) (y : Value α) : Outcome α Unit :=
  a.checked (a.verifyDual ci y) fun a =>
    ⟨.ok (), a.modifyReport r fun report => { report with duals := report.duals.set ci y }, []⟩

end Arena

end DualRecovery
