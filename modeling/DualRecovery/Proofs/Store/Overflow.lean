import DualRecovery.Proofs.Store.Effect

/-! When a command faults: a valid store faults at a command just if the last row of a function, or
the side of the matrices in a set, is so large that what is computed from it is no machine word. -/

namespace DualRecovery

variable {α : Type}

/-- The variables are among the first `n`, and the number of rows that the terms need is no word. -/
def ModelFunction.Overflows (f : ModelFunction α) (n : ℕ) : Prop :=
  (∀ v ∈ f.occurrences, v.number < n) ∧ ∃ row ∈ f.rows, f.dimension ≤ row ∧ UInt64.size ≤ row + 1

/-- The function overflows, or it fits and the dimension of the set overflows. -/
def Constraint.Overflows (c : Constraint α) (n : ℕ) : Prop :=
  c.function.Overflows n ∨ c.function.Fits n ∧ c.function.kind.isScalar = c.set.isScalar ∧
    c.set.size = .error .overflow

/-- A function or a set in the command overflows, where there are `n` variables. -/
def Command.Overflows (n : ℕ) : Command α → Prop
  | .addConstraint function set => Constraint.Overflows ⟨function, set⟩ n
  | .setObjective _ objective => objective.Overflows n
  | _ => False

namespace Store

variable {m : Store α} {cause : Fault}

/-! ### Checks -/

theorem verifyRow_eq_fault_iff {dimension : ℕ} {rows : List ℕ} :
    verifyRow dimension rows.max? = .error (.fault cause) ↔
      cause = .overflow ∧ ∃ row ∈ rows, dimension ≤ row ∧ UInt64.size ≤ row + 1 := by
  cases hmax : rows.max? with
  | none =>
    rw [List.max?_eq_none_iff.mp hmax]
    exact iff_of_false nofun fun h => by simp at h
  | some last =>
    obtain ⟨hmem, hle⟩ := List.max?_eq_some_iff.mp hmax
    rw [verifyRow]
    constructor
    · intro h
      split at h
      · cases h
      · next hdimension =>
        rcases bind_eq_error.mp h with h | ⟨_, -, h⟩
        · obtain ⟨rfl, hword⟩ := Word.ofNat_eq_error_iff.mp (orFault_eq_fault.mp h)
          exact ⟨rfl, last, hmem, Nat.not_lt.mp hdimension, hword⟩
        · cases h
    · rintro ⟨rfl, row, hrow, hdimension, hword⟩
      have hlast := hle row hrow
      rw [if_neg (by omega), Word.ofNat_of_le (by omega)]
      rfl

theorem verifyFunction_eq_fault_iff {f : ModelFunction α} :
    m.verifyFunction f = .error (.fault cause) ↔
      cause = .overflow ∧ f.Overflows m.variableCount := by
  rw [verifyFunction, bind_eq_error, ModelFunction.Overflows]
  constructor
  · rintro (h | ⟨_, hvariables, h⟩)
    · exact absurd h (orError_ne_fault _ _)
    · obtain ⟨hcause, hrow⟩ := verifyRow_eq_fault_iff.mp h
      exact ⟨hcause, verifyVariables_eq_ok_iff.mp (orError_eq_ok.mp hvariables), hrow⟩
  · rintro ⟨hcause, hvariables, hrow⟩
    exact Or.inr ⟨(), orError_eq_ok.mpr (verifyVariables_eq_ok_iff.mpr hvariables),
      verifyRow_eq_fault_iff.mpr ⟨hcause, hrow⟩⟩

theorem verifyConstraint_eq_fault_iff {c : Constraint α} :
    m.verifyConstraint c = .error (.fault cause) ↔
      cause = .overflow ∧ c.Overflows m.variableCount := by
  rw [verifyConstraint, bind_eq_error, verifyFunction_eq_fault_iff]
  constructor
  · rintro (⟨rfl, hfunction⟩ | ⟨_, hfunction, h⟩)
    · exact ⟨rfl, Or.inl hfunction⟩
    · split at h
      · cases h
      · next hscalar =>
        rcases bind_eq_error.mp h with h | ⟨_, -, h⟩
        · have hsize := orFault_eq_fault.mp h
          obtain ⟨rfl, -⟩ := c.set.of_size_eq_error hsize
          exact ⟨rfl, Or.inr ⟨verifyFunction_eq_ok_iff.mp hfunction, not_not.mp hscalar, hsize⟩⟩
        · split at h <;> cases h
  · rintro ⟨rfl, hfunction | ⟨hfunction, hscalar, hsize⟩⟩
    · exact Or.inl ⟨rfl, hfunction⟩
    · refine Or.inr ⟨(), verifyFunction_eq_ok_iff.mpr hfunction, ?_⟩
      rw [if_neg (not_not.mpr hscalar), hsize]
      rfl

/-- The sets of the constraints that there are do not overflow. -/
theorem Valid.verifyDual_ne_fault (hm : m.Valid) (ci : ConstraintIndex) (y : Value α) :
    m.verifyDual ci y ≠ .error (.fault cause) := by
  intro h
  rcases bind_eq_error.mp h with h | ⟨c, hc, h⟩
  · exact orError_ne_fault _ _ h
  · have hconstraint := constraint_eq_ok_iff.mp (orError_eq_ok.mp hc)
    have hmem := List.mem_of_getElem? (constraint?_eq_some_iff.mp hconstraint).1
    rw [Constraint.verifyDual, (hm.constraints c hmem).size] at h
    rcases bind_eq_error.mp h with h | ⟨_, -, h⟩
    · cases h
    · split at h <;> cases h

/-! ### Commands -/

theorem Valid.verify_eq_fault_iff (hm : m.Valid) (command : Command α) :
    m.verify command = .error (.fault cause) ↔
      cause = .overflow ∧ command.Overflows m.variableCount := by
  cases command with
  | addVariable | addVariables _ | reportPrimalStatus _ _ | reportDualStatus _ _ =>
    exact iff_of_false nofun fun h => h.2
  | addConstraint function set => exact verifyConstraint_eq_fault_iff
  | setObjective sense objective => exact verifyFunction_eq_fault_iff
  | reportPrimal r v x => exact iff_of_false (orError_ne_fault _ _) fun h => h.2
  | reportPrimals r values => exact iff_of_false (orError_ne_fault _ _) fun h => h.2
  | reportDual r ci y => exact iff_of_false (hm.verifyDual_ne_fault ci y) fun h => h.2

/-- A command faults just if a number in it is too large. -/
theorem Valid.run_eq_fault_iff (hm : m.Valid) (command : Command α) :
    (m.run command).1 = .error (.fault cause) ↔
      cause = .overflow ∧ command.Overflows m.variableCount := by
  rw [← hm.verify_eq_fault_iff]
  rcases m.run_cases command with ⟨failure, hcheck, hrun⟩ | ⟨hcheck, hrun⟩
  · rw [hcheck, hrun, Except.error.injEq, Except.error.injEq]
  · rw [hcheck, hrun]
    exact iff_of_false nofun nofun

/-- Without variables, in a cone of matrices with as many rows as there are words but one. -/
example : ((empty : Store ℚ).run (.addConstraint (.vectorOfVariables [])
    (.psdTriangleCone (UInt64.size - 1)))).1 = .error (.fault .overflow) := by
  decide +kernel

end Store

end DualRecovery
