import DualRecovery.Proofs.Arena.Safety

/-! Errors about dimensions. The two numbers in one differ, be it the answer to a command or the end
of a recovery from duals of any shape, with one exception: a value that is a number where a vector
of one entry is expected, or such a vector where a number is, has the expected dimension and is
refused for its shape. Where the number to be reported would be no machine word, there is no such
error but a fault. -/

namespace DualRecovery

variable {α β γ : Type}

/-- The answer is no error about dimensions. -/
def NoMismatch (x : Except QueryError β) : Prop :=
  ∀ expected found, x ≠ .error (.dimensionMismatch expected found)

namespace NoMismatch

theorem bind {x : Except QueryError β} {f : β → Except QueryError γ} (hx : NoMismatch x)
    (hf : ∀ b, NoMismatch (f b)) : NoMismatch (x >>= f) := by
  intro expected found h
  rcases bind_eq_error.mp h with h | ⟨b, -, h⟩
  · exact hx expected found h
  · exact hf b expected found h

theorem forM {f : β → Except QueryError Unit} (hf : ∀ b, NoMismatch (f b)) (bs : List β) :
    NoMismatch (bs.forM f) := by
  induction bs with
  | nil => exact fun _ _ h => by cases h
  | cons b bs ih => exact (hf b).bind fun _ => ih

end NoMismatch

/-- The value is a number where the duals of the constraint are vectors, or the other way round. -/
def Constraint.IsMisshapen (c : Constraint α) (y : Value α) : Prop :=
  y.isScalar ≠ c.function.kind.isScalar

/-- A value that is not admitted has another dimension than the set, or is misshapen. -/
theorem Constraint.Fits.ne_or_isMisshapen {c : Constraint α} {n : ℕ} (hc : c.Fits n) {y : Value α}
    (hy : c.admits y = false) : c.set.dimension ≠ y.length ∨
      c.set.dimension = 1 ∧ y.length = 1 ∧ c.IsMisshapen y := by
  by_cases hdimension : c.set.dimension = y.length
  swap
  · exact Or.inl hdimension
  right
  cases y with
  | scalar y =>
    have hvector : c.function.kind.isScalar = false := hy
    exact ⟨hdimension, rfl, by simp [IsMisshapen, Value.isScalar, hvector]⟩
  | vector ys =>
    have hscalar : c.function.kind.isScalar = true := by
      by_contra hvector
      simp [admits, hvector, hdimension] at hy
    have hone : c.set.dimension = 1 :=
      ConstraintSet.dimension_of_isScalar (hc.isScalar.symm.trans hscalar)
    exact ⟨hone, hdimension.symm.trans hone, by simp [IsMisshapen, Value.isScalar, hscalar]⟩

namespace Store

variable {m : Store α} {expected found : ℕ}

theorem noMismatch_verifyVariable (v : VariableIndex) : NoMismatch (m.verifyVariable v) := by
  intro expected found h
  unfold verifyVariable at h
  split at h <;> cases h

/-- A function is refused for a row beyond its dimension, and the row counts from zero. -/
theorem lt_of_verifyFunction {f : ModelFunction α}
    (h : m.verifyFunction f = .error (.error (.dimensionMismatch expected found))) :
    expected < found := by
  rcases bind_eq_error.mp h with h | ⟨-, -, h⟩
  · rw [orError_eq_error] at h
    exact absurd h (NoMismatch.forM noMismatch_verifyVariable _ expected found)
  · unfold verifyRow at h
    split at h
    · cases h
    · next row _ =>
      split at h
      · cases h
      · next hrow =>
        rcases bind_eq_error.mp h with h | ⟨needed, hneeded, h⟩
        · exact absurd h (orFault_ne_error _ _)
        · obtain rfl := Word.eq_of_ofNat (orFault_eq_ok.mp hneeded)
          cases h
          exact Nat.lt_succ_of_le (Nat.not_lt.mp hrow)

theorem ne_of_verifyConstraint {c : Constraint α}
    (h : m.verifyConstraint c = .error (.error (.dimensionMismatch expected found))) :
    expected ≠ found := by
  rcases bind_eq_error.mp h with h | ⟨-, -, h⟩
  · exact (lt_of_verifyFunction h).ne
  · split at h
    · cases h
    · rcases bind_eq_error.mp h with h | ⟨dimension, -, h⟩
      · exact absurd h (orFault_ne_error _ _)
      · split at h
        · next hdimension =>
          cases h
          exact hdimension.symm
        · cases h

theorem noMismatch_constraint (m : Store α) (ci : ConstraintIndex) :
    NoMismatch (m.constraint ci) := by
  intro expected found h
  unfold constraint at h
  split at h <;> cases h

theorem of_verifyDual {ci : ConstraintIndex} {y : Value α}
    (h : m.verifyDual ci y = .error (.error (.dimensionMismatch expected found))) :
    ∃ c, m.constraint ci = .ok c ∧ c.admits y = false ∧ expected = c.set.dimension ∧
      found = y.length := by
  rcases bind_eq_error.mp h with h | ⟨c, hc, h⟩
  · exact absurd (orError_eq_error.mp h) (m.noMismatch_constraint ci expected found)
  · rcases bind_eq_error.mp h with h | ⟨dimension, hsize, h⟩
    · exact absurd h (orFault_ne_error _ _)
    · split at h
      · cases h
      · next hadmits =>
        cases h
        exact ⟨c, orError_eq_ok.mp hc, eq_false_of_ne_true hadmits,
          ConstraintSet.eq_dimension_of_size (orFault_eq_ok.mp hsize), rfl⟩

theorem ne_of_verifyPrimals {values : List α}
    (h : m.verifyPrimals values = .error (.dimensionMismatch expected found)) :
    expected ≠ found := by
  unfold verifyPrimals at h
  split at h
  · cases h
  · next hlength =>
    cases h
    exact fun heq => hlength heq.symm

/-- Only the check of a dual can fail with two equal numbers. -/
theorem ne_or_of_verify {command : Command α}
    (h : m.verify command = .error (.error (.dimensionMismatch expected found))) :
    expected ≠ found ∨ ∃ r ci y c, command = .reportDual r ci y ∧ m.constraint ci = .ok c ∧
      c.admits y = false ∧ expected = c.set.dimension ∧ found = y.length := by
  cases command with
  | addVariable | addVariables _ | reportPrimalStatus _ _ | reportDualStatus _ _ => cases h
  | addConstraint function set => exact Or.inl (ne_of_verifyConstraint h)
  | setObjective sense objective => exact Or.inl (lt_of_verifyFunction h).ne
  | reportPrimal r v x =>
    exact absurd (orError_eq_error.mp h) (noMismatch_verifyVariable v expected found)
  | reportPrimals r values => exact Or.inl (ne_of_verifyPrimals (orError_eq_error.mp h))
  | reportDual r ci y =>
    obtain ⟨c, hc⟩ := of_verifyDual h
    exact Or.inr ⟨r, ci, y, c, rfl, hc⟩

end Store

namespace Arena

variable {a : Arena α} {expected found : ℕ}

/-! ### Queries -/

theorem noMismatch_constraint (a : Arena α) (ci : ConstraintIndex) :
    NoMismatch (a.constraint ci) := by
  intro expected found h
  unfold constraint at h
  split at h <;> cases h

theorem noMismatch_report (a : Arena α) (r : ℕ) : NoMismatch (a.report r) := by
  intro expected found h
  unfold report at h
  split at h <;> cases h

theorem noMismatch_primal (a : Arena α) (v : VariableIndex) (r : ℕ) :
    NoMismatch (a.primal v r) := by
  unfold primal
  split
  · refine (a.noMismatch_report r).bind fun report expected found h => ?_
    split at h <;> cases h
  · exact fun _ _ h => by cases h

theorem noMismatch_dual (a : Arena α) (ci : ConstraintIndex) (r : ℕ) :
    NoMismatch (a.dual ci r) := by
  refine (a.noMismatch_constraint ci).bind fun c => ?_
  refine (a.noMismatch_report r).bind fun report expected found h => ?_
  split at h <;> cases h

/-! ### Commands -/

/-- A command is refused with the error of its check. -/
theorem Represents.mismatch_run {m : Store α} (h : a.Represents m) (hm : m.Valid)
    {command : Command α}
    (hrun : (a.run command).answer = .error (.error (.dimensionMismatch expected found))) :
    expected ≠ found ∨ expected = 1 ∧ found = 1 ∧
      ∃ r ci y c, command = .reportDual r ci y ∧ a.constraint ci = .ok c ∧ c.IsMisshapen y := by
  rw [(h.run command).1] at hrun
  have hcheck : m.verify command = .error (.error (.dimensionMismatch expected found)) := by
    rcases m.run_cases command with ⟨failure, hcheck, heq⟩ | ⟨-, heq⟩
    · rw [heq] at hrun
      exact hcheck.trans (congrArg _ (Except.error.inj hrun))
    · rw [heq] at hrun
      cases hrun
  rcases Store.ne_or_of_verify hcheck with hne | ⟨r, ci, y, c, rfl, hc, hadmits, rfl, rfl⟩
  · exact Or.inl hne
  · have hstored : (ci, c) ∈ m.numbered :=
      Store.mem_numbered.mpr (Store.constraint_eq_ok_iff.mp hc)
    rcases (hm.fits hstored).ne_or_isMisshapen hadmits with hne | ⟨hone, hone', hshape⟩
    · exact Or.inl hne
    · exact Or.inr ⟨hone, hone', r, ci, y, c, rfl, (h.constraint ci).trans hc, hshape⟩

/-! ### Recovery -/

/-- An error about dimensions has two numbers that differ, or that are both one because the dual is
misshapen; the backend's answers are no such errors. -/
def TellsMismatch (a : Arena α) (dual : ConstraintIndex → Except QueryError (Value α)) :
    RecoveryError → Prop
  | .dimensionMismatch ci expected found =>
    expected ≠ found ∨ expected = 1 ∧ found = 1 ∧
      ∃ c y, a.constraint ci = .ok c ∧ dual ci = .ok y ∧ c.IsMisshapen y
  | .query (.dimensionMismatch _ _) => False
  | _ => True

theorem Represents.tellsMismatch {m : Store α} (h : a.Represents m) (hm : m.Valid)
    {dual : ConstraintIndex → ℕ → Except QueryError (Value α)} {r : ℕ}
    (hdual : ∀ ci, NoMismatch (dual ci r)) {requested : Option ConstraintIndex} {e : RecoveryError}
    (he : m.Explains m.primal dual r requested e) : a.TellsMismatch (dual · r) e := by
  cases e with
  | dimensionMismatch ci expected found =>
    obtain ⟨c, y, hc, hy, hadmits, rfl, rfl⟩ := he
    have hconstraint : a.constraint ci = .ok c :=
      (h.constraint ci).trans (Store.constraint_of_mem_numbered hc)
    rcases (hm.fits hc).ne_or_isMisshapen hadmits with hne | ⟨hone, hone', hshape⟩
    · exact Or.inl hne
    · exact Or.inr ⟨hone, hone', c, y, hconstraint, hy, hshape⟩
  | query cause =>
    cases cause with
    | dimensionMismatch expected found =>
      rcases he with ⟨v, -, hcause⟩ | ⟨p, -, hcause⟩ | ⟨ci, -, hcause⟩
      · exact a.noMismatch_primal v r expected found ((h.primal v r).trans hcause)
      · exact hdual p.1 expected found hcause
      · exact a.noMismatch_constraint ci expected found ((h.constraint ci).trans hcause)
    | _ => trivial
  | _ => trivial

variable [Scalar α]

/-- An error about dimensions reports two numbers that differ, whatever command is answered with it,
and whatever recovery ends in it where duals of any shape are answered. The one exception are
misshapen values for constraints of dimension one: both numbers are one then. No query of the arena
is answered with such an error, nor is a function that needs more rows than there are words. -/
theorem mismatch_numbers_ne_or (ha : a.Reachable) :
    (∀ command expected found,
      (a.run command).answer = .error (.error (.dimensionMismatch expected found)) →
      expected ≠ found ∨ expected = 1 ∧ found = 1 ∧
        ∃ r ci y c, command = .reportDual r ci y ∧ a.constraint ci = .ok c ∧ c.IsMisshapen y) ∧
      (∀ v r, NoMismatch (a.primal v r)) ∧ (∀ ci, NoMismatch (a.constraint ci)) ∧
      (∀ ci r, NoMismatch (a.dual ci r)) ∧
      (∀ dual : ConstraintIndex → ℕ → Except QueryError (Value α),
        (∀ ci r, NoMismatch (dual ci r)) →
        ∀ settings r, ({ a.backend with dual } : Backend α).Safe settings r
          fun _ => a.TellsMismatch (dual · r)) ∧
      ∀ f : ModelFunction α, f.Overflows a.variableCount → ∀ sense set,
        (a.run (.addConstraint f set)).answer = .error (.fault .overflow) ∧
          (a.run (.setObjective sense f)).answer = .error (.fault .overflow) := by
  obtain ⟨m, hm, hrep⟩ := ha.exists_store
  refine ⟨fun command expected found h => hrep.mismatch_run hm.valid h, a.noMismatch_primal,
    a.noMismatch_constraint, a.noMismatch_dual, fun dual hdual settings r => ?_,
    fun f hf sense set => ?_⟩
  · rw [hrep.backend_eq]
    exact (hm.valid.safe m.primal dual settings r).mono fun requested e he =>
      hrep.tellsMismatch hm.valid (fun ci => hdual ci r) he
  · rw [hrep.variableCount] at hf
    rw [(hrep.run _).1, (hrep.run _).1]
    exact ⟨(hm.valid.run_eq_fault_iff _).mpr ⟨rfl, Or.inl hf⟩,
      (hm.valid.run_eq_fault_iff _).mpr ⟨rfl, hf⟩⟩

/-- One variable with a bound, in a constraint on two rows and in a cone of dimension one. -/
def narrow : Arena ℚ := runAll empty
  [.addVariables 1, .addConstraint (.singleVariable ⟨0⟩) (.greaterThan 0),
    .addConstraint (.vectorAffine ⟨[⟨0, ⟨1, ⟨0⟩⟩⟩], [0, 0]⟩) (.nonnegativeCone 2),
    .addConstraint (.vectorOfVariables [⟨0⟩]) (.nonnegativeCone 1)]

/-- Three entries as the dual of every constraint. -/
def threeEntries (_ : ConstraintIndex) (_ : ℕ) : Except QueryError (Value ℚ) :=
  .ok (.vector [1, 1, 1])

/-- A term in the last row that there can be, of a function without constants. -/
def lastRow : ModelFunction ℚ := .vectorAffine ⟨[⟨UInt64.size - 1, ⟨1, ⟨0⟩⟩⟩], []⟩

/-- The dual of the bound is recovered up to the constraint on two rows. -/
theorem mismatch_numbers_narrow :
    narrow.Reachable ∧ (∀ ci r, NoMismatch (threeEntries ci r)) ∧
      (({ narrow.backend with dual := threeEntries } : Backend ℚ).recoverDual Settings.default 0
        ⟨⟨.singleVariable, .greaterThan⟩, 0⟩).outcome =
          .error (.error (.dimensionMismatch ⟨⟨.vectorAffine, .nonnegativeCone⟩, 1⟩ 2 3)) ∧
      narrow.TellsMismatch (threeEntries · 0)
        (.dimensionMismatch ⟨⟨.vectorAffine, .nonnegativeCone⟩, 1⟩ 2 3) ∧
      lastRow.Overflows narrow.variableCount ∧
      (narrow.run (.addConstraint lastRow (.nonnegativeCone 0))).answer =
        .error (.fault .overflow) := by
  have ha : narrow.Reachable := ⟨_, rfl⟩
  have hdual : ∀ ci r, NoMismatch (threeEntries ci r) := fun _ _ _ _ h => by cases h
  have houtcome : (({ narrow.backend with dual := threeEntries } : Backend ℚ).recoverDual
      Settings.default 0 ⟨⟨.singleVariable, .greaterThan⟩, 0⟩).outcome =
        .error (.error (.dimensionMismatch ⟨⟨.vectorAffine, .nonnegativeCone⟩, 1⟩ 2 3)) := by
    decide +kernel
  have hlarge : lastRow.Overflows narrow.variableCount := by
    refine ⟨by decide +kernel, UInt64.size - 1, ?_, by decide, by decide⟩
    decide +kernel
  obtain ⟨-, -, -, -, hsafe, hfault⟩ := mismatch_numbers_ne_or ha
  have hmeets := (hsafe threeEntries hdual Settings.default 0).recoverDual
    ⟨⟨.singleVariable, .greaterThan⟩, 0⟩
  rw [Traced.Meets, houtcome] at hmeets
  exact ⟨ha, hdual, houtcome, hmeets, hlarge,
    (hfault lastRow hlarge .minimize (.nonnegativeCone 0)).1⟩

/-- A number, reported as the dual of a vector with one entry, is refused with the same number
twice. -/
theorem not_mismatch_numbers_ne :
    ¬∀ (a : Arena ℚ) command expected found, a.Reachable →
      (a.run command).answer = .error (.error (.dimensionMismatch expected found)) →
      expected ≠ found := by
  intro h
  have hanswer : (narrow.run
      (.reportDual 0 ⟨⟨.vectorOfVariables, .nonnegativeCone⟩, 2⟩ (.scalar 1))).answer =
        .error (.error (.dimensionMismatch 1 1)) := by decide +kernel
  exact h narrow _ 1 1 ⟨_, rfl⟩ hanswer rfl

end Arena

end DualRecovery
