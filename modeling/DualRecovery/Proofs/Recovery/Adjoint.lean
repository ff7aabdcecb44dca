import DualRecovery.Proofs.InnerProduct
import DualRecovery.Proofs.ModelFunction.Coefficient
import DualRecovery.Proofs.Store.Numbering

/-! The two sides of stationarity, for exact scalars: the gradient of the objective, and the
adjoints of the constraints at their duals. Neither side refers to how duals are recovered. -/

namespace DualRecovery

/-! ### The adjoint of a constraint -/

/-- The coefficient of `v` in a function with a gradient. -/
def ModelFunction.slope : ModelFunction ℚ → VariableIndex → ℚ
  | .singleVariable w, v => if w = v then 1 else 0
  | .scalarAffine f, v => f.slope v
  | _, _ => 0

/-- `v` has a coefficient of a magnitude above `t` in an affine function. -/
def ModelFunction.Exceeds (f : ModelFunction ℚ) (v : VariableIndex) (t : ℚ) : Prop :=
  match f with
  | .scalarAffine f => t < |f.slope v|
  | .vectorAffine f => ∃ a ∈ f.column v, t < |a|
  | _ => False

instance (f : ModelFunction ℚ) (v : VariableIndex) (t : ℚ) : Decidable (f.Exceeds v t) :=
  match f with
  | .scalarAffine f => inferInstanceAs (Decidable (t < |f.slope v|))
  | .vectorAffine f => inferInstanceAs (Decidable (∃ a ∈ f.column v, t < |a|))
  | .singleVariable _ | .vectorOfVariables _ | .scalarQuadratic _ | .vectorQuadratic _ =>
    inferInstanceAs (Decidable False)

theorem ModelFunction.Exceeds.isAffine {f : ModelFunction ℚ} {v : VariableIndex} {t : ℚ}
    (h : f.Exceeds v t) : f.kind.isAffine = true := by
  cases f with
  | scalarAffine f | vectorAffine f => rfl
  | _ => exact h.elim

/-- The size of a dual in the space of the set. -/
def ConstraintSet.dualMass (s : ConstraintSet ℚ) : Value ℚ → ℚ
  | .scalar y => |y|
  | .vector ys => s.mass ys

namespace Constraint

/-- The entry for `v` of the adjoint of the constraint at `y`: the product of `y` and the
coefficient of `v`, in the space of the set. A list of variables has a unit vector for each
position of `v`. -/
def adjoint (c : Constraint ℚ) (y : Value ℚ) (v : VariableIndex) : ℚ :=
  match c.function, y with
  | .singleVariable w, .scalar y => if w = v then y else 0
  | .vectorOfVariables vs, .vector ys =>
    ∑ p ∈ Finset.range vs.length with vs[p]? = some v, c.set.pairing (unitVector vs.length p) ys
  | .scalarAffine f, .scalar y => f.slope v * y
  | .vectorAffine f, .vector ys => c.set.pairing (f.column v) ys
  | _, _ => 0

theorem admits_iff_scalar {α : Type} {c : Constraint α} (h : c.function.kind.isScalar = true)
    {y : Value α} : c.admits y = true ↔ ∃ a, y = .scalar a := by
  cases y <;> simp [admits, h]

theorem admits_iff_vector {α : Type} {c : Constraint α} (h : c.function.kind.isScalar = false)
    {y : Value α} : c.admits y = true ↔ ∃ ys, y = .vector ys ∧ ys.length = c.set.dimension := by
  cases y <;> simp [admits, h]

variable {c : Constraint ℚ} {y : Value ℚ} {n : ℕ} {v : VariableIndex}

theorem adjoint_vectorOfVariables {vs : List VariableIndex} {set : ConstraintSet ℚ} {ys : List ℚ}
    (hvs : vs.length = set.dimension) (hys : ys.length = set.dimension) (v : VariableIndex) :
    adjoint ⟨.vectorOfVariables vs, set⟩ (.vector ys) v =
      ∑ p ∈ Finset.range set.dimension with vs[p]? = some v,
        set.innerProduct.weight p * ys.getD p 0 := by
  refine (Finset.sum_congr (by rw [hvs]) fun p hp => ?_)
  rw [hvs, ConstraintSet.pairing_unitVector hys]
  exact Finset.mem_range.mp (Finset.mem_filter.mp hp).1

theorem adjoint_of_not_mem (hkind : c.function.kind.isVariableWise = true)
    (h : v ∉ c.function.occurrences) (y : Value ℚ) : c.adjoint y v = 0 := by
  obtain ⟨f, set⟩ := c
  cases f with
  | singleVariable w =>
    cases y with
    | scalar a =>
      refine if_neg ?_
      rintro rfl
      exact h (List.mem_singleton_self w)
    | vector ys => rfl
  | vectorOfVariables vs =>
    cases y with
    | scalar a => rfl
    | vector ys =>
      refine Finset.sum_eq_zero fun p hp => ?_
      exact absurd (List.mem_of_getElem? (Finset.mem_filter.mp hp).2) h
  | _ => cases hkind

/-- A constraint with small coefficients of `v` adds little, for the size of its dual. -/
theorem abs_adjoint_le (hc : c.Fits n) (hy : c.admits y = true)
    (hkind : c.function.kind.isAffine = true) {t : ℚ} (h : ¬c.function.Exceeds v t) :
    |c.adjoint y v| ≤ t * c.set.dualMass y := by
  obtain ⟨f, set⟩ := c
  cases f with
  | scalarAffine f =>
    obtain ⟨a, rfl⟩ := (admits_iff_scalar rfl).mp hy
    show |f.slope v * a| ≤ t * |a|
    rw [abs_mul]
    exact mul_le_mul_of_nonneg_right (not_lt.mp h) (abs_nonneg a)
  | vectorAffine f =>
    obtain ⟨ys, rfl, hys⟩ := (admits_iff_vector rfl).mp hy
    have hlen : (f.column v).length = set.dimension := (f.length_column v).trans hc.dimension
    exact ConstraintSet.abs_pairing_le hlen hys fun a ha => not_lt.mp fun hlt => h ⟨a, ha, hlt⟩
  | _ => cases hkind

/-- A constraint in which `v` has no coefficient adds nothing, whatever its dual. -/
theorem adjoint_of_not_exceeds (hc : c.Fits n) (hy : c.admits y = true)
    (hkind : c.function.kind.isAffine = true) (h : ¬c.function.Exceeds v 0) :
    c.adjoint y v = 0 := by
  have hle : |c.adjoint y v| ≤ 0 * c.set.dualMass y := abs_adjoint_le hc hy hkind h
  rw [zero_mul] at hle
  exact abs_nonpos_iff.mp hle

end Constraint

/-! ### The sides of stationarity in a store -/

namespace Store

variable (m : Store ℚ) (r : ℕ) (v : VariableIndex)

/-- The entry for `v` of the gradient of the objective, minimized. A ray has no objective, nor has
a feasibility problem. -/
def gradient : ℚ :=
  if (m.dualStatus r).isRay then 0
  else
    match m.sense with
    | .minimize => m.objective.slope v
    | .maximize => -m.objective.slope v
    | .feasibility => 0

/-- There is no objective to take the gradient of, or it is a single variable or scalar affine. -/
def HasGradient : Prop :=
  (m.dualStatus r).isRay = true ∨ m.sense = .feasibility ∨
    m.objective.kind = .singleVariable ∨ m.objective.kind = .scalarAffine

instance : Decidable (m.HasGradient r) :=
  inferInstanceAs (Decidable (_ ∨ _ ∨ _ ∨ _))

def HasDual (ci : ConstraintIndex) : Prop := ∃ y, m.dual ci r = .ok y

instance (ci : ConstraintIndex) : Decidable (m.HasDual r ci) :=
  decidable_of_iff ((m.dual ci r).toBool = true) <| by
    rw [HasDual]
    cases m.dual ci r <;> simp [Except.toBool]

/-- The adjoint of a constraint at the dual that is reported for it, if there is one. -/
def reportedAdjoint (p : ConstraintIndex × Constraint ℚ) : ℚ :=
  match m.dual p.1 r with
  | .ok y => p.2.adjoint y v
  | .error _ => 0

variable {m r v}

theorem reportedAdjoint_of_dual {p : ConstraintIndex × Constraint ℚ} {y : Value ℚ}
    (h : m.dual p.1 r = .ok y) : m.reportedAdjoint r v p = p.2.adjoint y v := by
  rw [reportedAdjoint, h]

theorem reportedAdjoint_of_error {p : ConstraintIndex × Constraint ℚ} {e : QueryError}
    (h : m.dual p.1 r = .error e) : m.reportedAdjoint r v p = 0 := by
  rw [reportedAdjoint, h]

theorem reportedAdjoint_of_not_hasDual {p : ConstraintIndex × Constraint ℚ}
    (h : ¬m.HasDual r p.1) : m.reportedAdjoint r v p = 0 := by
  cases hdual : m.dual p.1 r with
  | ok y => exact absurd ⟨y, hdual⟩ h
  | error e => exact reportedAdjoint_of_error hdual

theorem Valid.admits_of_dual {α : Type} {m : Store α} (hm : m.Valid)
    {p : ConstraintIndex × Constraint α} (hp : p ∈ m.numbered) {r : ℕ} {y : Value α}
    (hy : m.dual p.1 r = .ok y) : p.2.admits y = true := by
  rw [dual, bind_eq_ok] at hy
  obtain ⟨_, -, hy⟩ := hy
  rw [bind_eq_ok] at hy
  obtain ⟨result, hresult, hy⟩ := hy
  have hmem : result ∈ m.results := by
    unfold Store.result at hresult
    split at hresult
    · next h => exact Except.ok.inj hresult ▸ List.mem_of_getElem? h
    · cases hresult
  split at hy
  · next h =>
    obtain rfl := Except.ok.inj hy
    obtain ⟨c, hc, hadmits⟩ := hm.duals result hmem _ _ h
    rw [mem_numbered.mp hp] at hc
    exact Option.some.inj hc ▸ hadmits
  · cases hy

end Store

end DualRecovery
