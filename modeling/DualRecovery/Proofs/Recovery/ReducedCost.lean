import DualRecovery.Proofs.ModelFunction.Occurrences
import DualRecovery.Proofs.Recovery.Adjoint
import DualRecovery.Proofs.Trace.Returns

/-! Exactly when the reduced cost of a variable is found, and that it is what the reported duals of
the affine constraints leave of the gradient of the objective. -/

namespace DualRecovery

open Scalar Traced

namespace Traced

variable {α β : Type}

theorem ofQuery_ok (b : β) : (ofQuery (.ok b) : Traced α β) = pure b := rfl

theorem ofChecked_ok (b : β) : (ofChecked (.ok b) : Traced α β) = pure b := rfl

end Traced

/-! ### Settings -/

namespace Settings

variable {α : Type} [Scalar α] {settings : Settings α}

theorem neglects_iff {t : α} : settings.neglects t = true ↔ t ≤ settings.zeroTolerance := by
  simp [neglects]

theorem zeroTolerance_nonneg (h : settings.validate = .ok ()) : 0 ≤ settings.zeroTolerance := by
  rw [validate, bind_eq_ok] at h
  obtain ⟨_, -, h⟩ := h
  unfold checkTolerance at h
  split at h
  · next h' => exact h'.2
  · cases h

theorem zeroTolerance_default_nonneg : 0 ≤ (default : Settings ℚ).zeroTolerance := le_refl 0

end Settings

/-! ### Reported duals -/

namespace Backend

variable {α : Type} {b : Backend α} {r : ℕ} {ci : ConstraintIndex}

theorem returns_reportedDual {y : Value α} :
    (b.reportedDual r ci).Returns y ↔ b.dual ci r = .ok y := by
  simp [reportedDual]

theorem returns_reportedScalarDual {y : α} :
    (b.reportedScalarDual r ci).Returns y ↔ b.dual ci r = .ok (.scalar y) := by
  rw [reportedScalarDual, returns_bind]
  simp only [returns_reportedDual]
  constructor
  · rintro ⟨y' | ys, hdual, hy⟩
    · rw [hdual, returns_pure.mp hy]
    · exact (returns_fail.mp hy).elim
  · intro hdual
    exact ⟨_, hdual, returns_pure.mpr rfl⟩

theorem returns_reportedVectorDual {n : ℕ} {ys : List α} :
    (b.reportedVectorDual r ci n).Returns ys ↔
      b.dual ci r = .ok (.vector ys) ∧ ys.length = n := by
  rw [reportedVectorDual, returns_bind]
  simp only [returns_reportedDual]
  constructor
  · rintro ⟨y | ys', hdual, hys⟩
    · exact (returns_fail.mp hys).elim
    · rw [asVectorDual] at hys
      split at hys
      · next hn =>
        obtain rfl := returns_pure.mp hys
        exact ⟨hdual, hn⟩
      · exact (returns_fail.mp hys).elim
  · rintro ⟨hdual, hn⟩
    refine ⟨_, hdual, ?_⟩
    rw [asVectorDual, if_pos hn]
    exact returns_pure.mpr rfl

/-! ### Entries of adjoints -/

variable [Scalar α] {settings : Settings α} {v : VariableIndex} {x : α}

omit [Scalar α] in
theorem returns_emitContribution {y : α} :
    (emitContribution ci v y : Traced α α).Returns x ↔ x = y :=
  ⟨fun h => (Except.ok.inj h).symm, fun h => h ▸ rfl⟩

theorem returns_adjointEntry_scalar {f : ScalarAffine α}
    (hf : b.function ci = .ok (.scalarAffine f)) :
    (b.adjointEntry settings r v ci).Returns x ↔
      if settings.neglects (magnitude (f.coefficient v)) = true then x = 0
      else ∃ y, b.dual ci r = .ok (.scalar y) ∧ x = f.coefficient v * y := by
  rw [adjointEntry, hf, ofQuery_ok, pure_bind]
  dsimp only
  by_cases h : settings.neglects (magnitude (f.coefficient v)) = true
  · rw [if_pos h, if_pos h, returns_pure, eq_comm]
  · rw [if_neg h, if_neg h]
    simp only [returns_bind, returns_reportedScalarDual, returns_emitContribution]

theorem returns_adjointEntry_vector {f : VectorAffine α} {column : List α} {set : ConstraintSet α}
    (hf : b.function ci = .ok (.vectorAffine f)) (hcolumn : f.coefficient v = .ok column)
    (hset : b.set ci = .ok set) :
    (b.adjointEntry settings r v ci).Returns x ↔
      if settings.neglects (largestMagnitude column) = true then x = 0
      else ∃ ys, (b.dual ci r = .ok (.vector ys) ∧ ys.length = column.length) ∧
        set.innerProduct.dot column ys = .ok x := by
  rw [adjointEntry, hf, ofQuery_ok, pure_bind]
  simp only [hcolumn, ofChecked_ok, pure_bind, hset, ofQuery_ok]
  by_cases h : settings.neglects (largestMagnitude column) = true
  · rw [if_pos h, if_pos h, returns_pure, eq_comm]
  · rw [if_neg h, if_neg h]
    simp only [returns_bind, returns_reportedVectorDual, returns_ofChecked,
      returns_emitContribution, exists_eq_right']

end Backend

namespace Store

variable {m : Store ℚ} {p : ConstraintIndex × Constraint ℚ} {settings : Settings ℚ} {r : ℕ}
  {v : VariableIndex}

theorem backend_function {α : Type} {m : Store α} {p : ConstraintIndex × Constraint α}
    (hp : p ∈ m.numbered) : m.backend.function p.1 = .ok p.2.function :=
  congrArg (Except.map fun c : Constraint α => c.function) (constraint_of_mem_numbered hp)

theorem backend_set {α : Type} {m : Store α} {p : ConstraintIndex × Constraint α}
    (hp : p ∈ m.numbered) : m.backend.set p.1 = .ok p.2.set :=
  congrArg (Except.map fun c : Constraint α => c.set) (constraint_of_mem_numbered hp)

/-! ### The objective -/

theorem gradientEntry_computes (sign : ℚ) (f : ModelFunction ℚ) :
    (Backend.gradientEntry sign v f).Computes (f.kind = .singleVariable ∨ f.kind = .scalarAffine)
      (sign * f.slope v) := by
  cases f with
  | singleVariable w =>
    refine (Computes.of_pure (.inl rfl) _).congr Iff.rfl fun _ => ?_
    rw [ModelFunction.slope, mul_ite, mul_one, mul_zero]
  | scalarAffine f =>
    refine (Computes.of_pure (.inr rfl) _).congr Iff.rfl fun _ => ?_
    rw [ModelFunction.slope, ← f.coefficient_eq_slope]
  | _ => exact Computes.of_fail (by simp [ModelFunction.kind]) _ _

theorem objectiveGradient_computes (m : Store ℚ) (r : ℕ) (v : VariableIndex) :
    (m.backend.objectiveGradient r v).Computes (m.HasGradient r) (m.gradient r v) := by
  by_cases hray : (m.dualStatus r).isRay = true
  · rw [Backend.objectiveGradient, if_pos (by exact hray), gradient, if_pos hray]
    exact Computes.of_pure (.inl hray) 0
  · rw [Backend.objectiveGradient, if_neg (by exact hray), gradient, if_neg hray]
    have hbackend : m.backend.sense = m.sense := rfl
    have hobjective : m.backend.objective = .ok m.objective := rfl
    rw [hbackend, hobjective, ofQuery_ok]
    cases hsense : m.sense with
    | minimize =>
      exact (gradientEntry_computes 1 m.objective).congr (by simp [HasGradient, hray, hsense])
        fun _ => one_mul _
    | maximize =>
      exact (gradientEntry_computes (-1) m.objective).congr (by simp [HasGradient, hray, hsense])
        fun _ => neg_one_mul _
    | feasibility => exact Computes.of_pure (.inr (.inl hsense)) 0

/-! ### One constraint -/

/-- What an affine constraint adds: nothing if the coefficient of `v` is neglected, and else its
adjoint at the dual, which must be reported. -/
theorem adjointEntry_computes (hm : m.Valid) (hp : p ∈ m.numbered)
    (hkind : p.2.function.kind.isAffine = true) (ht : 0 ≤ settings.zeroTolerance) :
    (m.backend.adjointEntry settings r v p.1).Computes
      (p.2.function.Exceeds v settings.zeroTolerance → m.HasDual r p.1)
      (if p.2.function.Exceeds v settings.zeroTolerance then m.reportedAdjoint r v p else 0) := by
  have hc := hm.fits hp
  have hfunction := backend_function hp
  have hset := backend_set hp
  have hshape := fun y => hm.admits_of_dual hp (r := r) (y := y)
  obtain ⟨ci, f, set⟩ := p
  intro x
  cases f with
  | scalarAffine f =>
    have hneglects : settings.neglects (magnitude (f.coefficient v)) = true ↔
        ¬settings.zeroTolerance < |f.slope v| := by
      rw [Settings.neglects_iff, f.coefficient_eq_slope, magnitude_rat, not_lt]
    rw [Backend.returns_adjointEntry_scalar hfunction]
    -- The dual is asked for just if the coefficient exceeds the tolerance.
    by_cases h : settings.zeroTolerance < |f.slope v|
    · rw [if_neg fun h' => hneglects.mp h' h, if_pos (by exact h), f.coefficient_eq_slope]
      constructor
      · rintro ⟨y, hdual, rfl⟩
        exact ⟨fun _ => ⟨_, hdual⟩, (reportedAdjoint_of_dual hdual).symm⟩
      · rintro ⟨hreported, rfl⟩
        obtain ⟨y, hdual⟩ := hreported h
        obtain ⟨y, rfl⟩ := (Constraint.admits_iff_scalar rfl).mp (hshape y hdual)
        exact ⟨y, hdual, reportedAdjoint_of_dual hdual⟩
    · rw [if_pos (hneglects.mpr h), if_neg (by exact h)]
      exact ⟨fun hx => ⟨fun h' => absurd h' h, hx⟩, fun hx => hx.2⟩
  | vectorAffine f =>
    have hcolumn := f.coefficient_eq_column
      (fun t ht => hc.function.rows _ (List.mem_map_of_mem ht)) v
    have hlen : (f.column v).length = set.dimension := (f.length_column v).trans hc.dimension
    have hneglects : settings.neglects (largestMagnitude (f.column v)) = true ↔
        ¬∃ a ∈ f.column v, settings.zeroTolerance < |a| := by
      rw [Settings.neglects_iff, largestMagnitude_le_iff ht]
      push Not
      rfl
    rw [Backend.returns_adjointEntry_vector hfunction hcolumn hset]
    by_cases h : ∃ a ∈ f.column v, settings.zeroTolerance < |a|
    · rw [if_neg fun h' => hneglects.mp h' h, if_pos (by exact h)]
      constructor
      · rintro ⟨ys, ⟨hdual, hys⟩, hdot⟩
        rw [ConstraintSet.dot_eq_pairing hlen (hys.trans hlen)] at hdot
        exact ⟨fun _ => ⟨_, hdual⟩,
          (Except.ok.inj hdot).symm.trans (reportedAdjoint_of_dual hdual).symm⟩
      · rintro ⟨hreported, rfl⟩
        obtain ⟨y, hdual⟩ := hreported h
        obtain ⟨ys, rfl, hys⟩ := (Constraint.admits_iff_vector rfl).mp (hshape y hdual)
        refine ⟨ys, ⟨hdual, hys.trans hlen.symm⟩, ?_⟩
        rw [ConstraintSet.dot_eq_pairing hlen hys, reportedAdjoint_of_dual hdual]
        rfl
    · rw [if_pos (hneglects.mpr h), if_neg (by exact h)]
      exact ⟨fun hx => ⟨fun h' => absurd h' h, hx⟩, fun hx => hx.2⟩
  | _ => cases hkind

theorem checkUnrelated_computes (hp : p ∈ m.numbered) (excluded : ConstraintIndex) :
    (m.backend.checkUnrelated excluded v p.1).Computes (v ∉ p.2.function.occurrences) () := by
  rw [Backend.checkUnrelated, backend_function hp, ofQuery_ok, pure_bind]
  by_cases h : v ∈ p.2.function.occurrences
  · rw [if_pos ((p.2.function.mentions_iff_mem_occurrences v).mpr h)]
    exact Computes.of_fail (not_not.mpr h) _ _
  · rw [if_neg (mt (p.2.function.mentions_iff_mem_occurrences v).mp h)]
    exact Computes.of_pure h ()

/-! ### All constraints -/

variable (m settings r v)

/-- The constraint is no obstacle to the reduced cost of `v`: it is not quadratic, it is not another
one on the single variable `v`, and its dual is reported if it is needed. -/
structure Allows (excluded : ConstraintIndex) (p : ConstraintIndex × Constraint ℚ) : Prop where
  linear : p.2.function.kind.isQuadratic = false
  unrelated : p.2.function.kind.isVariableWise = true → p.1 ≠ excluded →
    v ∉ p.2.function.occurrences
  reported : p.2.function.Exceeds v settings.zeroTolerance → m.HasDual r p.1

/-- The adjoint of a constraint at its reported dual, if `v` has a coefficient in it that is not
neglected. -/
def contribution (p : ConstraintIndex × Constraint ℚ) : ℚ :=
  if p.2.function.Exceeds v settings.zeroTolerance then m.reportedAdjoint r v p else 0

/-- The reduced cost of `v`: what the contributions leave of the gradient. -/
def cost : ℚ := m.gradient r v - (m.numbered.map (m.contribution settings r v)).sum

def HasCost (excluded : ConstraintIndex) : Prop :=
  m.HasGradient r ∧ ∀ p ∈ m.numbered, m.Allows settings r v excluded p

variable {m settings r v}

theorem not_exceeds_of_isVariableWise {f : ModelFunction ℚ} {t : ℚ}
    (h : f.kind.isVariableWise = true) : ¬f.Exceeds v t := fun he => by
  have hwise := (FunctionKind.isAffine_iff.mp he.isAffine).2
  rw [h] at hwise
  cases hwise

theorem allows_iff_of_isVariableWise {excluded : ConstraintIndex}
    (h : p.2.function.kind.isVariableWise = true) :
    m.Allows settings r v excluded p ↔ (p.1 ≠ excluded → v ∉ p.2.function.occurrences) :=
  ⟨fun ha => ha.unrelated h, fun ha => ⟨FunctionKind.isQuadratic_of_isVariableWise h, fun _ => ha,
    fun he => absurd he (not_exceeds_of_isVariableWise h)⟩⟩

theorem allows_iff_of_isAffine {excluded : ConstraintIndex}
    (h : p.2.function.kind.isAffine = true) :
    m.Allows settings r v excluded p ↔
      (p.2.function.Exceeds v settings.zeroTolerance → m.HasDual r p.1) := by
  obtain ⟨hquadratic, hwise⟩ := FunctionKind.isAffine_iff.mp h
  exact ⟨Allows.reported, fun ha => ⟨hquadratic, fun h' => by simp [h'] at hwise, ha⟩⟩

theorem kind_of_mem_family {family : Family}
    (hp : p ∈ m.numbered.filter (·.1.family = family)) : p.2.function.kind = family.kind := by
  obtain ⟨hp, hfamily⟩ := List.mem_filter.mp hp
  rw [← of_decide_eq_true hfamily, family_of_mem_numbered hp]
  rfl

theorem familyAdjointEntry_computes (hm : m.Valid) (ht : 0 ≤ settings.zeroTolerance)
    (excluded : ConstraintIndex) {family : Family} (hfamily : family ∈ m.families) :
    (m.backend.familyAdjointEntry settings r excluded v family).Computes
      (∀ p ∈ m.numbered.filter (·.1.family = family), m.Allows settings r v excluded p)
      ((m.numbered.filter (·.1.family = family)).map (m.contribution settings r v)).sum := by
  have hindices : m.backend.indices family =
      (m.numbered.filter (·.1.family = family)).map Prod.fst := m.indices_eq family
  rw [Backend.familyAdjointEntry, hindices]
  by_cases hquadratic : family.kind.isQuadratic = true
  · rw [if_pos hquadratic]
    refine Computes.of_fail (m.not_forall_family hfamily fun p hp hallows => ?_) _ _
    have hlinear := hallows.linear
    rw [kind_of_mem_family hp, hquadratic] at hlinear
    cases hlinear
  rw [if_neg hquadratic]
  by_cases hwise : family.kind.isVariableWise = true
  · rw [if_pos hwise, List.filter_map, List.forM_eq_forM, List.forM_map]
    have hkind := fun p hp => (kind_of_mem_family (m := m) (p := p) hp).symm ▸ hwise
    refine ((Computes.forM fun p hp => checkUnrelated_computes ?_ excluded).bind_pure
      fun _ => (0 : ℚ)).congr ?_ fun _ => ?_
    · exact (List.mem_filter.mp (List.mem_filter.mp hp).1).1
    · rw [List.forall_mem_filter]
      refine forall₂_congr fun p hp => ?_
      rw [allows_iff_of_isVariableWise (hkind p hp)]
      simp
    · refine (List.sum_eq_zero fun x hx => ?_).symm
      obtain ⟨p, hp, rfl⟩ := List.mem_map.mp hx
      exact if_neg (not_exceeds_of_isVariableWise (hkind p hp))
  · rw [if_neg hwise, List.foldlM_map]
    have haffine : family.kind.isAffine = true :=
      FunctionKind.isAffine_iff.mpr ⟨eq_false_of_ne_true hquadratic, eq_false_of_ne_true hwise⟩
    have hstep : ∀ p ∈ m.numbered.filter (·.1.family = family),
        (m.backend.adjointEntry settings r v p.1).Computes
          (m.Allows settings r v excluded p) (m.contribution settings r v p) := by
      intro p hp
      have hkind := (kind_of_mem_family hp).symm ▸ haffine
      exact (adjointEntry_computes hm (List.mem_filter.mp hp).1 hkind ht).congr
        (allows_iff_of_isAffine hkind).symm fun _ => rfl
    refine (Computes.foldlM (· + ·) (fun a p hp => (hstep p hp).bind_pure (a + ·)) 0).congr
      Iff.rfl fun _ => ?_
    rw [foldl_add_eq_add_sum, zero_add]

theorem reducedCost_computes (hm : m.Valid) (ht : 0 ≤ settings.zeroTolerance)
    (excluded : ConstraintIndex) :
    (m.backend.reducedCost settings r excluded v).Computes
      (m.HasCost settings r v excluded) (m.cost settings r v) := by
  refine ((objectiveGradient_computes m r v).bind fun _ => Computes.foldlM (· - ·)
    (fun a family hfamily => (familyAdjointEntry_computes hm ht excluded hfamily).bind_pure
      (a - ·)) _).congr ?_ fun _ => ?_
  · rw [forall_families_iff, HasCost]
  · rw [foldl_sub_eq_sub_sum, sum_families, cost]

/-- The reduced cost of a variable is found if and only if the objective has a gradient, no
constraint is quadratic, no other constraint on single variables has the variable, and every affine
constraint in which its coefficient is not neglected has a dual. It is then the gradient less the
adjoints of exactly those affine constraints. -/
theorem exists_reducedCost_iff (hm : m.Reachable) (hs : settings.validate = .ok ()) (r : ℕ)
    (excluded : ConstraintIndex) (v : VariableIndex) :
    ((∃ x, (m.backend.reducedCost settings r excluded v).Returns x) ↔
      m.HasGradient r ∧
      (∀ p ∈ m.numbered, p.2.function.kind.isQuadratic = false) ∧
      (∀ p ∈ m.numbered, p.2.function.kind.isVariableWise = true → p.1 ≠ excluded →
        v ∉ p.2.function.occurrences) ∧
      ∀ p ∈ m.numbered, p.2.function.Exceeds v settings.zeroTolerance → m.HasDual r p.1) ∧
    ∀ x, (m.backend.reducedCost settings r excluded v).Returns x →
      x = m.gradient r v -
        ((m.numbered.filter fun p => p.2.function.Exceeds v settings.zeroTolerance).map
          (m.reportedAdjoint r v)).sum := by
  have h := reducedCost_computes (r := r) (v := v) hm.valid (Settings.zeroTolerance_nonneg hs)
    excluded
  constructor
  · rw [h.exists_returns]
    constructor
    · rintro ⟨hgradient, hallows⟩
      exact ⟨hgradient, fun p hp => (hallows p hp).linear, fun p hp => (hallows p hp).unrelated,
        fun p hp => (hallows p hp).reported⟩
    · rintro ⟨hgradient, hlinear, hunrelated, hreported⟩
      exact ⟨hgradient, fun p hp => ⟨hlinear p hp, hunrelated p hp, hreported p hp⟩⟩
  · intro x hx
    rw [h.eq hx, ← sum_map_ite_zero]
    rfl

/-- A variable with a bound and two affine constraints whose duals are reported. -/
def bounded : Store ℚ := runAll .empty
  [.addVariables 2, .addConstraint (.singleVariable ⟨0⟩) (.greaterThan 0),
    .addConstraint (.scalarAffine ⟨[⟨2, ⟨0⟩⟩, ⟨1, ⟨1⟩⟩], 0⟩) (.greaterThan 1),
    .addConstraint (.vectorAffine ⟨[⟨1, ⟨3, ⟨0⟩⟩⟩], [0, 0, 0]⟩) (.psdTriangleCone 2),
    .setObjective .minimize (.scalarAffine ⟨[⟨5, ⟨0⟩⟩], 0⟩),
    .reportDual 0 ⟨⟨.scalarAffine, .greaterThan⟩, 1⟩ (.scalar 3),
    .reportDual 0 ⟨⟨.vectorAffine, .psdTriangleCone⟩, 2⟩ (.vector [1, 1, 1])]

/-- The entry off the diagonal counts twice: `5 - 2 * 3 - 2 * 3 * 1`. -/
theorem reducedCost_bounded :
    bounded.Reachable ∧ (Settings.default : Settings ℚ).validate = .ok () ∧
      (bounded.backend.reducedCost Settings.default 0 ⟨⟨.singleVariable, .greaterThan⟩, 0⟩
        ⟨0⟩).Returns (-7) := by
  have hm : bounded.Reachable := ⟨_, rfl⟩
  have hs : (Settings.default : Settings ℚ).validate = .ok () := by decide +kernel
  obtain ⟨hiff, hvalue⟩ := exists_reducedCost_iff hm hs 0 ⟨⟨.singleVariable, .greaterThan⟩, 0⟩ ⟨0⟩
  obtain ⟨x, hx⟩ := hiff.mpr (by decide +kernel)
  have hx7 : x = -7 := (hvalue x hx).trans (by decide +kernel)
  exact ⟨hm, hs, hx7 ▸ hx⟩

end Store

end DualRecovery
