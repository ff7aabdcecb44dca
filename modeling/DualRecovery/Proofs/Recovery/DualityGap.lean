import DualRecovery.Proofs.Recovery.DualObjective

/-! The gap between the value of the objective and that of the dual objective, when the duals of
all constraints on single variables are left to be recovered. It is the sum over the constraints of
the products of their duals with what their values are off their bounds. -/

namespace DualRecovery

open Traced

/-- Whether the objective is minimized, as a factor. -/
def Sense.sign : Sense → ℚ
  | .minimize => 1
  | .maximize => -1
  | .feasibility => 0

theorem Sense.sign_mul {sense : Sense} (h : sense ≠ .feasibility) (x : ℚ) :
    sense.sign * x = if sense = .maximize then -x else x := by
  cases sense with
  | minimize => exact one_mul x
  | maximize => exact neg_one_mul x
  | feasibility => exact absurd rfl h

/-- The product of a dual `y` with what a value `x` is off the bound that is active at `y`. The
bound of a cone is zero. -/
def ConstraintSet.gap (s : ConstraintSet ℚ) (x y : Value ℚ) : ℚ :=
  match x, y with
  | .scalar x, .scalar y => (x - s.boundAt y) * y
  | .vector x, .vector y => s.pairing x y
  | _, _ => 0

theorem Constraint.gap_eq {c : Constraint ℚ} {x y : Value ℚ} (hx : c.admits x = true)
    (hy : c.admits y = true) : c.set.gap x y = c.set.pair x y - c.set.boundTerm y := by
  cases hscalar : c.function.kind.isScalar with
  | true =>
    obtain ⟨a, rfl⟩ := (admits_iff_scalar hscalar).mp hx
    obtain ⟨b, rfl⟩ := (admits_iff_scalar hscalar).mp hy
    exact sub_mul a _ b
  | false =>
    obtain ⟨xs, rfl, -⟩ := (admits_iff_vector hscalar).mp hx
    obtain ⟨ys, rfl, -⟩ := (admits_iff_vector hscalar).mp hy
    exact (sub_zero _).symm

/-! ### Values that are recovered -/

namespace Store

variable {m : Store ℚ} {r : ℕ} {p : ConstraintIndex × Constraint ℚ} {v : VariableIndex}

def HasPrimal (m : Store ℚ) (r : ℕ) (v : VariableIndex) : Prop := ∃ x, m.primal v r = .ok x

instance (m : Store ℚ) (r : ℕ) (v : VariableIndex) : Decidable (m.HasPrimal r v) :=
  decidable_of_iff ((m.primal v r).toBool = true) <| by
    rw [HasPrimal]
    cases m.primal v r <;> simp [Except.toBool]

/-- The value of `v` that is reported, if there is one. -/
def point (m : Store ℚ) (r : ℕ) (v : VariableIndex) : ℚ :=
  match m.primal v r with
  | .ok x => x
  | .error _ => 0

/-- The variables of the constraints on single variables, place by place. -/
def placed (m : Store ℚ) : List VariableIndex :=
  (m.numbered.filter (·.2.function.kind.isVariableWise)).flatMap (·.2.function.occurrences)

theorem count_placed (m : Store ℚ) (v : VariableIndex) : (m.placed.count v : ℚ) =
    (m.numbered.map fun p => if p.2.function.kind.isVariableWise = true then
      (p.2.function.occurrences.count v : ℚ) else 0).sum := by
  rw [placed]
  induction m.numbered with
  | nil => rfl
  | cons p ps ih =>
    rw [List.map_cons, List.sum_cons, ← ih]
    by_cases hwise : p.2.function.kind.isVariableWise = true
    · rw [List.filter_cons, if_pos hwise, List.flatMap_cons, List.count_append, if_pos hwise,
        Nat.cast_add]
    · rw [List.filter_cons, if_neg hwise, if_neg hwise, zero_add]

variable (m r) in
/-- All is reported of a result but the duals of the constraints on single variables. Each variable
stands in one place of them, or else it is stationary without. -/
structure Recoverable : Prop where
  sense : m.sense ≠ .feasibility
  objective : m.objective.kind = .singleVariable ∨ m.objective.kind = .scalarAffine
  linear : ∀ p ∈ m.numbered, p.2.function.kind.isQuadratic = false
  result : r < m.results.length
  point : (m.dualStatus r).isRay = false
  primals : ∀ v, v.number < m.variableCount → m.HasPrimal r v
  reported : ∀ p ∈ m.numbered, p.2.function.kind.isAffine = true → m.HasDual r p.1
  unreported : ∀ p ∈ m.numbered, p.2.function.kind.isVariableWise = true → ¬m.HasDual r p.1
  once : m.placed.Nodup
  stationary : ∀ v, v.number < m.variableCount → v ∉ m.placed →
    ∃ excluded, (m.backend.reducedCost Settings.default r excluded v).Returns 0

theorem returns_valueAtPoint {f : ModelFunction ℚ} (hf : f.Fits m.variableCount)
    (hkind : f.kind.isQuadratic = false) (h : m.Recoverable r) :
    (m.backend.valueAtPoint Settings.default r f).Returns
      (f.valueAt m.variableCount (m.point r)) := by
  have hlookup : ∀ v, v.number < m.variableCount → m.primal v r = .ok (m.point r v) := by
    intro v hv
    obtain ⟨x, hx⟩ := h.primals v hv
    rw [point, hx]
  have hvalue := f.evaluate_eq_ok hf hkind hlookup
  rw [Backend.valueAtPoint, returns_bind]
  exact ⟨_, returns_ofEvaluation.mpr hvalue, rfl⟩

/-! ### Stationarity of the duals -/

namespace Recoverable

theorem hasGradient (h : m.Recoverable r) : m.HasGradient r := .inr (.inr h.objective)

theorem unrelated (h : m.Recoverable r) {q : ConstraintIndex × Constraint ℚ}
    (hp : p ∈ m.numbered) (hwise : p.2.function.kind.isVariableWise = true) (hq : q ∈ m.numbered)
    (hwise' : q.2.function.kind.isVariableWise = true) (hne : q ≠ p)
    (hv : v ∈ p.2.function.occurrences) : v ∉ q.2.function.occurrences := by
  have hdisjoint := (List.nodup_flatMap.mp h.once).2
  have hsymm : Std.Symm (Function.onFun List.Disjoint fun p : ConstraintIndex × Constraint ℚ =>
      p.2.function.occurrences) := ⟨fun _ _ h => List.Disjoint.symm h⟩
  intro hv'
  exact hdisjoint.forall (List.mem_filter.mpr ⟨hq, hwise'⟩)
    (List.mem_filter.mpr ⟨hp, hwise⟩) hne hv' hv

theorem hasCost (h : m.Recoverable r) (hp : p ∈ m.numbered)
    (hwise : p.2.function.kind.isVariableWise = true) (hv : v ∈ p.2.function.occurrences) :
    m.HasCost Settings.default r v p.1 := by
  refine ⟨h.hasGradient, fun q hq => ⟨h.linear q hq, fun hwise' hne => ?_, fun hexceeds => ?_⟩⟩
  · exact h.unrelated hp hwise hq hwise' (fun heq => hne (heq ▸ rfl)) hv
  · exact h.reported q hq hexceeds.isAffine

theorem dual_eq (h : m.Recoverable r) (hp : p ∈ m.numbered)
    (haffine : p.2.function.kind.isAffine = true) :
    m.dual p.1 r = .ok (m.dualOrRecovered Settings.default r p) := by
  obtain ⟨y, hy⟩ := h.reported p hp haffine
  rw [dualOrRecovered_of_dual hy, hy]

theorem returns_recoverDual (hm : m.Valid) (h : m.Recoverable r) (hp : p ∈ m.numbered)
    (hwise : p.2.function.kind.isVariableWise = true) :
    (m.backend.recoverDual Settings.default r p.1).Returns
      (m.dualOrRecovered Settings.default r p) := by
  rw [dualOrRecovered_of_not_hasDual (h.unreported p hp hwise)]
  exact (recoverDual_computes hm Settings.zeroTolerance_default_nonneg hp hwise).returns
    fun v hv => h.hasCost hp hwise hv

theorem contributes (h : m.Recoverable r) (hp : p ∈ m.numbered) :
    m.Contributes Settings.default r p := by
  refine ⟨h.linear p hp, h.reported p hp, fun hsingle => .inr ⟨h.result, fun v hv => ?_⟩⟩
  exact h.hasCost hp (by rw [hsingle]; rfl) hv

/-- A variable without a place has the cost zero, and another has one place to take its cost. -/
theorem count_placed_mul_cost (hm : m.Valid) (h : m.Recoverable r)
    (hv : v.number < m.variableCount) :
    m.placed.count v * m.cost Settings.default r v = m.cost Settings.default r v := by
  by_cases hplaced : v ∈ m.placed
  · rw [List.count_eq_one_of_mem h.once hplaced, Nat.cast_one, one_mul]
  · obtain ⟨excluded, hzero⟩ := h.stationary v hv hplaced
    have hcost := (reducedCost_computes hm Settings.zeroTolerance_default_nonneg excluded).eq hzero
    rw [← hcost, mul_zero]

/-- The duals are stationary together. -/
theorem sum_adjoint (hm : m.Valid) (h : m.Recoverable r) (hv : v.number < m.variableCount) :
    (m.numbered.map fun p => p.2.adjoint (m.dualOrRecovered Settings.default r p) v).sum =
      m.gradient r v := by
  have hsplit : ∀ p ∈ m.numbered, p.2.adjoint (m.dualOrRecovered Settings.default r p) v =
      m.contribution Settings.default r v p + if p.2.function.kind.isVariableWise = true then
        p.2.function.occurrences.count v * m.cost Settings.default r v else 0 := by
    intro p hp
    by_cases haffine : p.2.function.kind.isAffine = true
    · have hwise := (FunctionKind.isAffine_iff.mp haffine).2
      rw [if_neg (by simp [hwise]), add_zero]
      exact adjoint_eq_contribution hm hp haffine (h.dual_eq hp haffine)
    · have hwise := FunctionKind.isVariableWise_of_not_isAffine (h.linear p hp) haffine
      have hc := hm.fits hp
      rw [if_pos hwise, contribution_default hm hp, if_neg haffine, zero_add,
        dualOrRecovered_of_not_hasDual (h.unreported p hp hwise),
        Constraint.adjoint_dualOf hc hwise]
  have hplaced : (m.numbered.map fun p => if p.2.function.kind.isVariableWise = true then
      p.2.function.occurrences.count v * m.cost Settings.default r v else 0).sum =
      m.placed.count v * m.cost Settings.default r v := by
    rw [count_placed, ← List.sum_map_mul_right]
    refine congrArg List.sum (List.map_congr_left fun p _ => ?_)
    rw [ite_mul, zero_mul]
  rw [List.map_congr_left hsplit, List.sum_map_add, hplaced, h.count_placed_mul_cost hm hv, cost,
    add_sub_cancel]

theorem slope_objective (h : m.Recoverable r) (v : VariableIndex) :
    m.objective.slope v = m.sense.sign * m.gradient r v := by
  rw [gradient, if_neg (by simp [h.point])]
  cases hsense : m.sense with
  | minimize => exact (one_mul _).symm
  | maximize => exact ((neg_mul_neg 1 _).trans (one_mul _)).symm
  | feasibility => exact absurd hsense h.sense

/-! ### The gap -/

/-- At a point, the adjoint of a constraint is what the constraint adds to the gap and to the dual
objective. -/
theorem sum_adjoint_eq_gap (hm : m.Valid) (h : m.Recoverable r) (hp : p ∈ m.numbered) :
    ∑ k ∈ Finset.range m.variableCount,
      p.2.adjoint (m.dualOrRecovered Settings.default r p) ⟨k⟩ * m.point r ⟨k⟩ =
    p.2.set.gap (p.2.function.valueAt m.variableCount (m.point r))
        (m.dualOrRecovered Settings.default r p) +
      m.dualTerm Settings.default r p := by
  have hc := hm.fits hp
  have hshape : p.2.admits (m.dualOrRecovered Settings.default r p) = true :=
    admits_dualOrRecovered hm hp
  rw [Constraint.sum_adjoint hc (h.linear p hp) hshape,
    Constraint.gap_eq (Constraint.admits_valueAt hc (h.linear p hp) _) hshape, dualTerm]
  ring

theorem sum_slopes_eq_gaps (hm : m.Valid) (h : m.Recoverable r) :
    ∑ k ∈ Finset.range m.variableCount, m.objective.slope ⟨k⟩ * m.point r ⟨k⟩ =
      m.sense.sign * ((m.numbered.map fun p =>
        p.2.set.gap (p.2.function.valueAt m.variableCount (m.point r))
          (m.dualOrRecovered Settings.default r p)).sum +
        (m.numbered.map (m.dualTerm Settings.default r)).sum) := by
  calc ∑ k ∈ Finset.range m.variableCount, m.objective.slope ⟨k⟩ * m.point r ⟨k⟩
      = m.sense.sign * ∑ k ∈ Finset.range m.variableCount,
          (m.numbered.map fun p =>
            p.2.adjoint (m.dualOrRecovered Settings.default r p) ⟨k⟩).sum * m.point r ⟨k⟩ := by
        rw [Finset.mul_sum]
        refine Finset.sum_congr rfl fun k hk => ?_
        rw [h.slope_objective, h.sum_adjoint hm (Finset.mem_range.mp hk), mul_assoc]
    _ = m.sense.sign * (m.numbered.map fun p => ∑ k ∈ Finset.range m.variableCount,
          p.2.adjoint (m.dualOrRecovered Settings.default r p) ⟨k⟩ * m.point r ⟨k⟩).sum := by
        rw [sum_sum_map_mul m.numbered (Finset.range m.variableCount)
          (fun p k => p.2.adjoint (m.dualOrRecovered Settings.default r p) ⟨k⟩)
          fun k => m.point r ⟨k⟩]
    _ = _ := by
        rw [List.map_congr_left fun p hp => h.sum_adjoint_eq_gap hm hp, List.sum_map_add]

end Recoverable

/-- Where only the duals of constraints on single variables are missing, all values that can be
recovered are. Objective and dual objective then differ by the products of the duals with what the
values of their constraints are off their bounds. -/
theorem exists_objective_sub_dualObjective (hm : m.Reachable) (h : m.Recoverable r) :
    ∃ (objective dualObjective : ℚ) (primal dual : ConstraintIndex × Constraint ℚ → Value ℚ),
      (m.backend.objectiveValue Settings.default r).Returns (.scalar objective) ∧
      (m.backend.dualObjectiveValue Settings.default r).Returns dualObjective ∧
      (∀ p ∈ m.numbered,
        (m.backend.constraintValue Settings.default r p.1).Returns (primal p)) ∧
      (∀ p ∈ m.numbered, p.2.function.kind.isVariableWise = true →
        (m.backend.recoverDual Settings.default r p.1).Returns (dual p)) ∧
      (∀ p ∈ m.numbered, p.2.function.kind.isAffine = true → m.dual p.1 r = .ok (dual p)) ∧
      objective - dualObjective =
        m.sense.sign * (m.numbered.map fun p => p.2.set.gap (primal p) (dual p)).sum := by
  have hvalid := hm.valid
  have hlinear : m.objective.kind.isQuadratic = false := by
    rcases h.objective with hkind | hkind <;> rw [hkind] <;> rfl
  have hobjective := returns_valueAtPoint hvalid.objective hlinear h
  rw [ModelFunction.valueAt_eq_scalar hvalid.objective h.objective, h.sum_slopes_eq_gaps hvalid]
    at hobjective
  have hdual := (dualObjective_computes (r := r) hvalid
    Settings.zeroTolerance_default_nonneg).returns ⟨fun p hp => h.contributes hp, h.hasGradient⟩
  refine ⟨_, _, fun p => p.2.function.valueAt m.variableCount (m.point r),
    m.dualOrRecovered Settings.default r, returns_concluded.mpr hobjective, hdual,
    fun p hp => ?_, fun p hp => h.returns_recoverDual hvalid hp, fun p hp => h.dual_eq hp, ?_⟩
  · have hc := hvalid.fits hp
    have hvalue := returns_valueAtPoint hc.function (h.linear p hp) h
    rw [Backend.constraintValue, returns_concluded, backend_function hp, ofQuery_ok, pure_bind]
    exact hvalue
  · have hshift : m.objectiveShift r = m.objective.shift :=
      if_neg (by simp [h.sense, h.point])
    rw [hshift, ← Sense.sign_mul h.sense]
    ring

/-- A matrix of variables, a variable in an interval, and a free one, with two affine
constraints. -/
def mixed : Store ℚ := runAll .empty
  [.addVariables 5, .addConstraint (.vectorOfVariables [⟨0⟩, ⟨1⟩, ⟨2⟩]) (.psdTriangleCone 2),
    .addConstraint (.singleVariable ⟨3⟩) (.interval 0 4),
    .addConstraint (.scalarAffine ⟨[⟨1, ⟨0⟩⟩, ⟨1, ⟨2⟩⟩], 1⟩) (.equalTo 3),
    .addConstraint (.vectorAffine ⟨[⟨0, ⟨-1, ⟨4⟩⟩⟩, ⟨1, ⟨1, ⟨3⟩⟩⟩], [3, 1]⟩) (.nonnegativeCone 2),
    .setObjective .maximize
      (.scalarAffine ⟨[⟨-5, ⟨0⟩⟩, ⟨-6, ⟨1⟩⟩, ⟨-4, ⟨2⟩⟩, ⟨3, ⟨3⟩⟩, ⟨2, ⟨4⟩⟩], 7⟩),
    .reportPrimals 0 [1, 0, 1, 3, 1], .reportDual 0 ⟨⟨.scalarAffine, .equalTo⟩, 2⟩ (.scalar 4),
    .reportDual 0 ⟨⟨.vectorAffine, .nonnegativeCone⟩, 3⟩ (.vector [2, 0])]

/-- The objective is `9` and the dual objective `17`. -/
theorem objective_sub_dualObjective_mixed :
    mixed.Reachable ∧ mixed.Recoverable 0 ∧
      ∃ primal dual : ConstraintIndex × Constraint ℚ → Value ℚ,
        (∀ p ∈ mixed.numbered,
          (mixed.backend.constraintValue Settings.default 0 p.1).Returns (primal p)) ∧
        (∀ p ∈ mixed.numbered, p.2.function.kind.isVariableWise = true →
          (mixed.backend.recoverDual Settings.default 0 p.1).Returns (dual p)) ∧
        9 - 17 = mixed.sense.sign *
          (mixed.numbered.map fun p => p.2.set.gap (primal p) (dual p)).sum := by
  have hm : mixed.Reachable := ⟨_, rfl⟩
  have hprimals : ∀ k < 5, mixed.HasPrimal 0 ⟨k⟩ := by decide +kernel
  have hstationary : ∀ k < 5, ⟨k⟩ ∉ mixed.placed → (mixed.backend.reducedCost Settings.default 0
      ⟨⟨.singleVariable, .interval⟩, 1⟩ ⟨k⟩).outcome = .ok 0 := by decide +kernel
  have h : mixed.Recoverable 0 :=
    { sense := by decide +kernel
      objective := by decide +kernel
      linear := by decide +kernel
      result := by decide +kernel
      point := by decide +kernel
      primals := fun v hv => hprimals v.number hv
      reported := by decide +kernel
      unreported := by decide +kernel
      once := by decide +kernel
      stationary := fun v hv hplaced => ⟨_, hstationary v.number hv hplaced⟩ }
  obtain ⟨objective, dualObjective, primal, dual, ho, hd, hp, hy, -, heq⟩ :=
    exists_objective_sub_dualObjective hm h
  have ho' : (mixed.backend.objectiveValue Settings.default 0).Returns (.scalar 9) := by
    rw [Returns]
    decide +kernel
  have hd' : (mixed.backend.dualObjectiveValue Settings.default 0).Returns 17 := by
    rw [Returns]
    decide +kernel
  obtain rfl := Value.scalar.inj (ho.unique ho')
  obtain rfl := hd.unique hd'
  exact ⟨hm, h, primal, dual, hp, hy, heq⟩

end Store

end DualRecovery
