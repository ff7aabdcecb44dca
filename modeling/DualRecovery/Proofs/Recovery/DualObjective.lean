import DualRecovery.Proofs.Recovery.Pairing
import DualRecovery.Proofs.Recovery.Stationarity

/-! When the dual objective is found, and what it is. Each constraint adds the product of its dual
with its active bound less that with its constant; the dual of a constraint on one variable is
recovered where it is not reported. -/

namespace DualRecovery

open Traced

/-! ### Bounds -/

namespace ConstraintSet

/-- The bound of the set that is active at the dual `y`. A cone has the bound zero, and so has an
interval at the dual zero. -/
def boundAt (s : ConstraintSet ℚ) (y : ℚ) : ℚ :=
  match s with
  | .greaterThan c | .lessThan c | .equalTo c => c
  | .interval lower upper => if 0 < y then lower else if y < 0 then upper else 0
  | _ => 0

/-- The product of a dual with the bound that is active at it. -/
def boundTerm (s : ConstraintSet ℚ) : Value ℚ → ℚ
  | .scalar y => s.boundAt y * y
  | .vector _ => 0

theorem activeBound_eq {s : ConstraintSet ℚ} (h : s.isScalar = true) (y : ℚ) :
    s.activeBound? y = some (some (s.boundAt y)) ∨ s.activeBound? y = some none ∧ y = 0 := by
  cases s with
  | greaterThan c | lessThan c | equalTo c => exact .inl rfl
  | interval lower upper =>
    rcases lt_trichotomy 0 y with hy | hy | hy
    · refine .inl (congrArg some ?_)
      rw [boundAt, if_pos hy, if_pos hy]
    · refine .inr ⟨congrArg some ?_, hy.symm⟩
      rw [if_neg hy.not_lt, if_neg hy.symm.not_lt]
    · refine .inl (congrArg some ?_)
      rw [boundAt, if_neg hy.not_gt, if_pos hy, if_neg hy.not_gt, if_pos hy]
  | _ => cases h

end ConstraintSet

namespace Store

variable {m : Store ℚ} {settings : Settings ℚ} {r : ℕ} {p : ConstraintIndex × Constraint ℚ}

/-! ### The duals that are used -/

/-- The dual that is reported for the constraint, or else the one that is recovered. -/
def dualOrRecovered (m : Store ℚ) (settings : Settings ℚ) (r : ℕ)
    (p : ConstraintIndex × Constraint ℚ) : Value ℚ :=
  match m.dual p.1 r with
  | .ok y => y
  | .error _ => p.2.dualOf (m.cost settings r)

theorem dualOrRecovered_of_dual {y : Value ℚ} (h : m.dual p.1 r = .ok y) :
    m.dualOrRecovered settings r p = y := by
  rw [dualOrRecovered, h]

theorem dualOrRecovered_of_not_hasDual (h : ¬m.HasDual r p.1) :
    m.dualOrRecovered settings r p = p.2.dualOf (m.cost settings r) := by
  cases hdual : m.dual p.1 r with
  | ok y => exact absurd ⟨y, hdual⟩ h
  | error e => rw [dualOrRecovered, hdual]

theorem admits_dualOrRecovered (hm : m.Valid) (hp : p ∈ m.numbered) :
    p.2.admits (m.dualOrRecovered settings r p) = true := by
  by_cases hdual : m.HasDual r p.1
  · obtain ⟨y, hy⟩ := hdual
    rw [dualOrRecovered_of_dual hy]
    exact hm.admits_of_dual hp hy
  · rw [dualOrRecovered_of_not_hasDual hdual]
    exact Constraint.admits_dualOf (hm.fits hp) _

/-- A dual that is not reported is not available, unless there is no such result. -/
theorem isNotAvailable_of_dual {e : QueryError} (hp : p ∈ m.numbered)
    (h : m.dual p.1 r = .error e) : e.isNotAvailable = true ↔ r < m.results.length := by
  rw [dual, constraint_of_mem_numbered hp, bind_eq_error] at h
  obtain h | ⟨c, -, h⟩ := h
  · cases h
  rw [bind_eq_error, Store.result] at h
  cases hget : m.results[r]? with
  | none =>
    rw [hget] at h
    obtain h | ⟨result, hresult, -⟩ := h
    · obtain rfl := Except.error.inj h
      exact iff_of_false Bool.false_ne_true (not_lt.mpr (List.getElem?_eq_none_iff.mp hget))
    · cases hresult
  | some result =>
    rw [hget] at h
    obtain h | ⟨result, -, h⟩ := h
    · cases h
    · split at h
      · cases h
      · obtain rfl := Except.error.inj h
        exact iff_of_true rfl (List.getElem?_eq_some_iff.mp hget).1

/-! ### One constraint -/

variable (m settings r) in
/-- What the dual objective needs of one constraint. -/
structure Contributes (p : ConstraintIndex × Constraint ℚ) : Prop where
  linear : p.2.function.kind.isQuadratic = false
  reported : p.2.function.kind.isAffine = true → m.HasDual r p.1
  recovered : p.2.function.kind = .singleVariable → m.HasDual r p.1 ∨
    r < m.results.length ∧ ∀ v ∈ p.2.function.occurrences, m.HasCost settings r v p.1

variable (m settings r) in
/-- What a constraint adds to the dual objective. -/
def dualTerm (p : ConstraintIndex × Constraint ℚ) : ℚ :=
  p.2.set.boundTerm (m.dualOrRecovered settings r p) -
    p.2.set.pair p.2.function.constant (m.dualOrRecovered settings r p)

theorem contributes_iff_of_isAffine (h : p.2.function.kind.isAffine = true) :
    m.Contributes settings r p ↔ m.HasDual r p.1 := by
  obtain ⟨hlinear, hwise⟩ := FunctionKind.isAffine_iff.mp h
  refine ⟨fun hp => hp.reported h, fun hp => ⟨hlinear, fun _ => hp, fun hsingle => ?_⟩⟩
  rw [hsingle] at hwise
  cases hwise

theorem contributes_iff_of_singleVariable (h : p.2.function.kind = .singleVariable) :
    m.Contributes settings r p ↔ m.HasDual r p.1 ∨
      r < m.results.length ∧ ∀ v ∈ p.2.function.occurrences, m.HasCost settings r v p.1 := by
  refine ⟨fun hp => hp.recovered h, fun hp => ⟨?_, fun haffine => ?_, fun _ => hp⟩⟩
  · rw [h]
    rfl
  · rw [h] at haffine
    cases haffine

theorem contributes_of_vectorOfVariables (h : p.2.function.kind = .vectorOfVariables) :
    m.Contributes settings r p := by
  refine ⟨?_, fun haffine => ?_, fun hsingle => ?_⟩
  · rw [h]
    rfl
  · rw [h] at haffine
    cases haffine
  · rw [h] at hsingle
    cases hsingle

theorem reportedDual_outcome {e : QueryError} (h : m.dual p.1 r = .error e) :
    (m.backend.reportedScalarDual r p.1).outcome = .error (.error (.query e)) := by
  have hquery : m.backend.dual p.1 r = .error e := h
  rw [Backend.reportedScalarDual, Backend.reportedDual, hquery]
  rfl

theorem stationaryScalarDual_computes (hm : m.Valid) (ht : 0 ≤ settings.zeroTolerance)
    (hp : p ∈ m.numbered) (hkind : p.2.function.kind.isVariableWise = true) {a : ℚ}
    (ha : p.2.dualOf (m.cost settings r) = .scalar a) :
    (m.backend.stationaryDual settings r p.1 >>= Backend.asScalarDual p.1).Computes
      (∀ v ∈ p.2.function.occurrences, m.HasCost settings r v p.1) a := by
  refine ((stationaryDual_computes hm ht hp hkind).bind fun _ => ?_).congr
    (Iff.of_eq (and_true _)) fun _ => rfl
  rw [ha]
  exact Computes.of_pure trivial a

/-- The dual of a constraint on one variable, reported or recovered. -/
theorem scalarDualOrRecovered_computes (hm : m.Valid) (ht : 0 ≤ settings.zeroTolerance)
    (hp : p ∈ m.numbered) (hscalar : p.2.function.kind.isScalar = true)
    (hlinear : p.2.function.kind.isQuadratic = false) {a : ℚ}
    (ha : m.dualOrRecovered settings r p = .scalar a) :
    (m.backend.scalarDualOrRecovered settings r p.1).Computes (m.Contributes settings r p) a := by
  cases hdual : m.dual p.1 r with
  | ok y =>
    rw [dualOrRecovered_of_dual hdual] at ha
    have hreturns : (m.backend.scalarDualOrRecovered settings r p.1).Returns a :=
      returns_recover.mpr (.inl (Backend.returns_reportedScalarDual.mpr (ha ▸ hdual)))
    have hcontributes : m.Contributes settings r p :=
      ⟨hlinear, fun _ => ⟨y, hdual⟩, fun _ => .inl ⟨y, hdual⟩⟩
    exact (Computes.of_returns hreturns).congr (iff_of_true trivial hcontributes) fun _ => rfl
  | error e =>
    have hnot : ¬m.HasDual r p.1 := by
      rintro ⟨y, hy⟩
      rw [hdual] at hy
      cases hy
    have hfamily : p.1.family.kind = p.2.function.kind :=
      congrArg Family.kind (family_of_mem_numbered hp)
    intro b
    rw [Backend.scalarDualOrRecovered, returns_recover_of_error (reportedDual_outcome hdual)]
    by_cases haffine : p.2.function.kind.isAffine = true
    · -- Nothing recovers the dual of an affine constraint.
      have hwise : p.1.family.kind.isVariableWise = false :=
        hfamily ▸ (FunctionKind.isAffine_iff.mp haffine).2
      refine iff_of_false ?_ fun h => hnot (h.1.reported haffine)
      rintro ⟨x, hx, -⟩
      rw [if_neg (by simp [hwise])] at hx
      cases hx
    · have hwise := FunctionKind.isVariableWise_of_not_isAffine hlinear haffine
      rw [dualOrRecovered_of_not_hasDual hnot] at ha
      have hcontributes : m.Contributes settings r p ↔ r < m.results.length ∧
          ∀ v ∈ p.2.function.occurrences, m.HasCost settings r v p.1 :=
        (contributes_iff_of_singleVariable (FunctionKind.eq_singleVariable hwise hscalar)).trans
          (or_iff_right hnot)
      have havailable : (RecoveryError.query e).isNotAvailable = true ↔ r < m.results.length :=
        isNotAvailable_of_dual hp hdual
      by_cases hr : r < m.results.length
      · rw [if_pos ⟨havailable.mpr hr, hfamily ▸ hwise⟩]
        simp only [Option.some.injEq, exists_eq_left']
        rw [hcontributes, and_iff_right hr]
        exact stationaryScalarDual_computes hm ht hp hwise ha b
      · rw [if_neg fun h => hr (havailable.mp h.1), hcontributes]
        refine iff_of_false ?_ fun h => hr h.1.1
        rintro ⟨x, hx, -⟩
        cases hx

/-- What a scalar constraint adds. A bound that is not active is not used. -/
theorem dualTerm_scalar_computes (hm : m.Valid) (ht : 0 ≤ settings.zeroTolerance)
    (hp : p ∈ m.numbered) (hscalar : p.2.function.kind.isScalar = true)
    (hlinear : p.2.function.kind.isQuadratic = false) {constant : ℚ}
    (hconstant : p.2.function.constant = .scalar constant) :
    (m.backend.dualTerm settings r p.1 p.2.set (.scalar constant)).Computes
      (m.Contributes settings r p) (m.dualTerm settings r p) := by
  have hset : p.2.set.isScalar = true := (hm.fits hp).isScalar ▸ hscalar
  have hshape : p.2.admits (m.dualOrRecovered settings r p) = true := admits_dualOrRecovered hm hp
  obtain ⟨a, ha⟩ := (Constraint.admits_iff_scalar hscalar).mp hshape
  have hvalue : m.dualTerm settings r p = p.2.set.boundAt a * a - constant * a := by
    rw [dualTerm, ha, hconstant]
    rfl
  refine ((scalarDualOrRecovered_computes hm ht hp hscalar hlinear ha).bind fun _ => ?_).congr
    (Iff.of_eq (and_true _)) fun _ => rfl
  obtain hbound | ⟨hbound, rfl⟩ := ConstraintSet.activeBound_eq hset a
  · rw [hbound, hvalue, ← sub_mul]
    exact Computes.of_pure trivial _
  · rw [hbound, hvalue, mul_zero, mul_zero, sub_zero]
    exact Computes.of_pure trivial _

theorem dualTerm_vector_computes (hm : m.Valid) {ci : ConstraintIndex} {f : VectorAffine ℚ}
    {set : ConstraintSet ℚ} (hp : (ci, ⟨.vectorAffine f, set⟩) ∈ m.numbered) :
    (m.backend.dualTerm settings r ci set (.vector f.constants)).Computes
      (m.Contributes settings r (ci, ⟨.vectorAffine f, set⟩))
      (m.dualTerm settings r (ci, ⟨.vectorAffine f, set⟩)) := by
  have hc := hm.fits hp
  have hf : f.constants.length = set.dimension := hc.dimension
  intro b
  rw [contributes_iff_of_isAffine rfl, Backend.dualTerm, returns_bind]
  simp only [Backend.returns_reportedVectorDual, returns_bind, returns_ofChecked, returns_pure]
  have hvalue : ∀ ys : List ℚ, m.dual ci r = .ok (.vector ys) →
      m.dualTerm settings r (ci, ⟨.vectorAffine f, set⟩) = -set.pairing f.constants ys := by
    intro ys hdual
    rw [dualTerm, dualOrRecovered_of_dual hdual]
    exact zero_sub _
  constructor
  · rintro ⟨ys, ⟨hdual, hys⟩, x, hx, rfl⟩
    rw [ConstraintSet.dot_eq_pairing hf (hys.trans hf)] at hx
    rw [hvalue ys hdual, Except.ok.inj hx]
    exact ⟨⟨_, hdual⟩, rfl⟩
  · rintro ⟨⟨y, hdual⟩, rfl⟩
    obtain ⟨ys, rfl, hys⟩ := (Constraint.admits_iff_vector rfl).mp (hm.admits_of_dual hp hdual)
    have hys : ys.length = set.dimension := hys
    exact ⟨ys, ⟨hdual, hys.trans hf.symm⟩, _, ConstraintSet.dot_eq_pairing hf hys,
      (hvalue ys hdual).symm⟩

theorem loggedDualTerm_computes (hm : m.Valid) (ht : 0 ≤ settings.zeroTolerance)
    (hp : p ∈ m.numbered) (hlinear : p.2.function.kind.isQuadratic = false)
    (hkind : p.2.function.kind ≠ .vectorOfVariables) :
    (m.backend.loggedDualTerm settings r p.1).Computes (m.Contributes settings r p)
      (m.dualTerm settings r p) := by
  have hterm : (m.backend.dualTerm settings r p.1 p.2.set p.2.function.constant).Computes
      (m.Contributes settings r p) (m.dualTerm settings r p) := by
    obtain ⟨ci, f, set⟩ := p
    cases f with
    | singleVariable v => exact dualTerm_scalar_computes hm ht hp rfl rfl rfl
    | scalarAffine f => exact dualTerm_scalar_computes hm ht hp rfl rfl rfl
    | vectorAffine f => exact dualTerm_vector_computes hm hp
    | vectorOfVariables vs => exact absurd rfl hkind
    | scalarQuadratic f | vectorQuadratic f => cases hlinear
  have hemit : ∀ x : ℚ,
      (do emit (.objectiveContribution p.1 x); return x : Traced ℚ ℚ).Returns x := fun _ => rfl
  rw [Backend.loggedDualTerm, backend_function hp, ofQuery_ok, pure_bind, backend_set hp,
    ofQuery_ok, pure_bind]
  refine (hterm.bind fun _ => ?_).congr (Iff.of_eq (and_true _)) fun _ => rfl
  exact Computes.of_returns (hemit _)

/-! ### All constraints -/

theorem dualTerm_of_vectorOfVariables (hm : m.Valid) (hp : p ∈ m.numbered)
    (hkind : p.2.function.kind = .vectorOfVariables) : m.dualTerm settings r p = 0 := by
  have hc := hm.fits hp
  have hshape : p.2.admits (m.dualOrRecovered settings r p) = true := admits_dualOrRecovered hm hp
  rw [dualTerm]
  generalize m.dualOrRecovered settings r p = y at hshape ⊢
  obtain ⟨ci, f, set⟩ := p
  cases f with
  | vectorOfVariables vs =>
    obtain ⟨ys, rfl, hys⟩ := (Constraint.admits_iff_vector rfl).mp hshape
    have hvs : vs.length = set.dimension := hc.dimension
    show 0 - set.pairing (List.replicate vs.length 0) ys = 0
    rw [hvs, ConstraintSet.pairing_zero hys, sub_zero]
  | _ => cases hkind

theorem addFamilyDualObjective_computes (hm : m.Valid) (ht : 0 ≤ settings.zeroTolerance)
    {family : Family} (hfamily : family ∈ m.families) (value : ℚ) :
    (m.backend.addFamilyDualObjective settings r value family).Computes
      (∀ p ∈ m.numbered.filter (·.1.family = family), m.Contributes settings r p)
      (value + ((m.numbered.filter (·.1.family = family)).map (m.dualTerm settings r)).sum) := by
  have hindices : m.backend.indices family =
      (m.numbered.filter (·.1.family = family)).map Prod.fst := m.indices_eq family
  rw [Backend.addFamilyDualObjective, hindices]
  by_cases hquadratic : family.kind.isQuadratic = true
  · rw [if_pos hquadratic]
    refine Computes.of_fail (m.not_forall_family hfamily fun p hp hcontributes => ?_) _ _
    have hlinear := hcontributes.linear
    rw [kind_of_mem_family hp, hquadratic] at hlinear
    cases hlinear
  rw [if_neg hquadratic]
  by_cases hvariables : family.kind = .vectorOfVariables
  · rw [if_pos hvariables]
    have hkind := fun p hp => (kind_of_mem_family (m := m) (p := p) hp).trans hvariables
    refine (Computes.of_pure (fun p hp => contributes_of_vectorOfVariables (hkind p hp))
      value).congr Iff.rfl fun _ => ?_
    rw [List.sum_eq_zero, add_zero]
    intro x hx
    obtain ⟨p, hp, rfl⟩ := List.mem_map.mp hx
    exact dualTerm_of_vectorOfVariables hm (List.mem_filter.mp hp).1 (hkind p hp)
  · rw [if_neg hvariables, List.foldlM_map]
    have hstep : ∀ p ∈ m.numbered.filter (·.1.family = family),
        (m.backend.loggedDualTerm settings r p.1).Computes (m.Contributes settings r p)
          (m.dualTerm settings r p) := by
      intro p hp
      have hkind := kind_of_mem_family hp
      exact loggedDualTerm_computes hm ht (List.mem_filter.mp hp).1
        (hkind ▸ eq_false_of_ne_true hquadratic) (hkind ▸ hvariables)
    refine (Computes.foldlM (· + ·) (fun a p hp => (hstep p hp).bind_pure (a + ·)) value).congr
      Iff.rfl fun _ => ?_
    rw [foldl_add_eq_add_sum]

/-- The constant of the objective, which a ray and a feasibility problem do not have. -/
def objectiveShift (m : Store ℚ) (r : ℕ) : ℚ :=
  if m.sense = .feasibility ∨ (m.dualStatus r).isRay = true then 0 else m.objective.shift

theorem objectiveConstant_computes (f : ModelFunction ℚ) :
    (Backend.objectiveConstant f).Computes (f.kind = .singleVariable ∨ f.kind = .scalarAffine)
      f.shift := by
  cases f with
  | singleVariable v => exact Computes.of_pure (.inl rfl) 0
  | scalarAffine f => exact Computes.of_pure (.inr rfl) f.constant
  | _ => exact Computes.of_fail (by simp [ModelFunction.kind]) _ _

/-- The dual objective is found if and only if every constraint contributes and there is no
objective, or one with a dual. -/
theorem dualObjective_computes (hm : m.Valid) (ht : 0 ≤ settings.zeroTolerance) :
    (m.backend.dualObjectiveValue settings r).Computes
      ((∀ p ∈ m.numbered, m.Contributes settings r p) ∧ m.HasGradient r)
      ((if m.sense = .maximize then -(m.numbered.map (m.dualTerm settings r)).sum
        else (m.numbered.map (m.dualTerm settings r)).sum) + m.objectiveShift r) := by
  have hsum : (m.backend.families.foldlM (m.backend.addFamilyDualObjective settings r) 0).Computes
      (∀ p ∈ m.numbered, m.Contributes settings r p)
      (m.numbered.map (m.dualTerm settings r)).sum := by
    refine (Computes.foldlM (· + ·) (fun a family hfamily =>
      addFamilyDualObjective_computes hm ht hfamily a) 0).congr m.forall_families_iff fun _ => ?_
    rw [foldl_add_eq_add_sum, zero_add, sum_families]
  have hobjective : (m.backend.dualObjective settings r).Computes
      ((∀ p ∈ m.numbered, m.Contributes settings r p) ∧ m.HasGradient r)
      ((if m.sense = .maximize then -(m.numbered.map (m.dualTerm settings r)).sum
        else (m.numbered.map (m.dualTerm settings r)).sum) + m.objectiveShift r) := by
    refine hsum.bind fun _ => ?_
    by_cases hnone : m.sense = .feasibility ∨ (m.dualStatus r).isRay = true
    · rw [if_pos (by exact hnone), objectiveShift, if_pos hnone, add_zero]
      exact Computes.of_pure (hnone.elim (fun h => .inr (.inl h)) .inl) _
    · rw [if_neg (by exact hnone), objectiveShift, if_neg hnone]
      have hgradient : m.HasGradient r ↔
          m.objective.kind = .singleVariable ∨ m.objective.kind = .scalarAffine := by
        rw [HasGradient, ← or_assoc, or_comm (a := (m.dualStatus r).isRay = true),
          or_iff_right hnone]
      rw [hgradient]
      exact (objectiveConstant_computes m.objective).bind_pure _
  exact fun b => returns_concluded.trans (hobjective b)

end Store

end DualRecovery
