import DualRecovery.Proofs.Recovery.ReducedCost

/-! The duals of constraints on single variables that are recovered: when they are, what they are,
and whether they satisfy the stationarity they are recovered from. Taking the adjoint of a
constraint in which no variable stands twice is undone by recovering its dual; for a variable that
stands in it `n` times the recovered dual has `n` times the adjoint it should have. -/

namespace DualRecovery

open Traced

namespace Constraint

/-! ### The dual from the costs of the variables -/

/-- The dual for which each position of a variable has the cost of the variable as its part of the
adjoint, and zero for a constraint that is not on single variables. -/
def dualOf (c : Constraint ℚ) (cost : VariableIndex → ℚ) : Value ℚ :=
  match c.function with
  | .singleVariable v => .scalar (cost v)
  | .vectorOfVariables vs =>
    .vector ((vs.map cost).mapIdx fun k a => a / c.set.innerProduct.weight k)
  | .scalarAffine _ | .scalarQuadratic _ => .scalar 0
  | .vectorAffine _ | .vectorQuadratic _ => .vector (List.replicate c.set.dimension 0)

variable {c : Constraint ℚ} {y : Value ℚ} {n : ℕ} {v : VariableIndex}

theorem dualOf_congr {cost cost' : VariableIndex → ℚ}
    (h : ∀ v ∈ c.function.occurrences, cost v = cost' v) : c.dualOf cost = c.dualOf cost' := by
  obtain ⟨f, set⟩ := c
  cases f with
  | singleVariable w => exact congrArg Value.scalar (h w (List.mem_singleton_self w))
  | vectorOfVariables vs =>
    have hmap : vs.map cost = vs.map cost' := List.map_congr_left h
    exact congrArg (fun costs =>
      Value.vector (costs.mapIdx fun k a => a / set.innerProduct.weight k)) hmap
  | _ => rfl

theorem admits_dualOf (hc : c.Fits n) (cost : VariableIndex → ℚ) :
    c.admits (c.dualOf cost) = true := by
  obtain ⟨f, set⟩ := c
  cases f with
  | singleVariable _ | scalarAffine _ | scalarQuadratic _ => rfl
  | vectorOfVariables vs =>
    refine (admits_iff_vector rfl).mpr ⟨_, rfl, ?_⟩
    rw [List.length_mapIdx, List.length_map]
    exact hc.dimension
  | vectorAffine _ | vectorQuadratic _ =>
    exact (admits_iff_vector rfl).mpr ⟨_, rfl, List.length_replicate⟩

theorem card_positions (vs : List VariableIndex) (v : VariableIndex) :
    ((Finset.range vs.length).filter fun p => vs[p]? = some v).card = vs.count v := by
  rw [Finset.card_filter]
  induction vs with
  | nil => rfl
  | cons w vs ih =>
    rw [List.length_cons, Finset.sum_range_succ']
    simp only [List.getElem?_cons_succ, List.getElem?_cons_zero, Option.some.injEq, ih,
      List.count_cons, beq_iff_eq]

theorem adjoint_dualOf (hc : c.Fits n) (hkind : c.function.kind.isVariableWise = true)
    (cost : VariableIndex → ℚ) (v : VariableIndex) :
    c.adjoint (c.dualOf cost) v = c.function.occurrences.count v * cost v := by
  obtain ⟨f, set⟩ := c
  cases f with
  | singleVariable w =>
    show (if w = v then cost w else 0) = ([w].count v : ℚ) * cost v
    by_cases h : w = v
    · rw [if_pos h, h, List.count_singleton_self, Nat.cast_one, one_mul]
    · rw [if_neg h, List.count_eq_zero.mpr (by simpa using Ne.symm h), Nat.cast_zero, zero_mul]
  | vectorOfVariables vs =>
    have hvs : vs.length = set.dimension := hc.dimension
    have hpart : ∀ p ∈ (Finset.range set.dimension).filter fun p => vs[p]? = some v,
        set.innerProduct.weight p *
          ((vs.map cost).mapIdx fun k a => a / set.innerProduct.weight k).getD p 0 = cost v := by
      intro p hp
      rw [List.getD_eq_getElem?_getD, List.getElem?_mapIdx, List.getElem?_map,
        (Finset.mem_filter.mp hp).2]
      exact mul_div_cancel₀ _ (InnerProduct.weight_ne_zero _ _)
    refine (adjoint_vectorOfVariables hvs (by simpa using hvs) v).trans ?_
    rw [Finset.sum_congr rfl hpart, Finset.sum_const, ← hvs, card_positions, nsmul_eq_mul]
    rfl
  | _ => cases hkind

/-- A dual of a constraint in which no variable stands twice is determined by its adjoint. -/
theorem dualOf_adjoint (hc : c.Fits n) (hkind : c.function.kind.isVariableWise = true)
    (hnodup : c.function.occurrences.Nodup) (hy : c.admits y = true) :
    c.dualOf (c.adjoint y) = y := by
  obtain ⟨f, set⟩ := c
  cases f with
  | singleVariable w =>
    obtain ⟨a, rfl⟩ := (admits_iff_scalar rfl).mp hy
    exact congrArg Value.scalar (if_pos rfl)
  | vectorOfVariables vs =>
    obtain ⟨ys, rfl, hys⟩ := (admits_iff_vector rfl).mp hy
    have hvs : vs.length = set.dimension := hc.dimension
    have hys : ys.length = set.dimension := hys
    refine congrArg Value.vector (List.ext_getElem (by simp [hvs, hys]) fun k hk hk' => ?_)
    rw [List.length_mapIdx, List.length_map] at hk
    have honly : ∀ p, vs[p]? = some vs[k] → p = k := by
      intro p hp
      obtain ⟨hp', heq⟩ := List.getElem?_eq_some_iff.mp hp
      exact (hnodup.getElem_inj_iff).mp heq
    rw [List.getElem_mapIdx, List.getElem_map, adjoint_vectorOfVariables hvs hys,
      Finset.sum_eq_single_of_mem k
        (Finset.mem_filter.mpr ⟨Finset.mem_range.mpr (hvs ▸ hk), List.getElem?_eq_getElem hk⟩)
        fun p hp hne => absurd (honly p (Finset.mem_filter.mp hp).2) hne,
      mul_div_cancel_left₀ _ (InnerProduct.weight_ne_zero _ _), List.getD_eq_getElem _ _ hk']
  | _ => cases hkind

end Constraint

namespace Store

variable {m : Store ℚ} {settings : Settings ℚ} {r : ℕ} {p : ConstraintIndex × Constraint ℚ}
  {v : VariableIndex}

/-! ### When a dual is recovered -/

theorem stationaryDual_computes (hm : m.Valid) (ht : 0 ≤ settings.zeroTolerance)
    (hp : p ∈ m.numbered) (hkind : p.2.function.kind.isVariableWise = true) :
    (m.backend.stationaryDual settings r p.1).Computes
      (∀ v ∈ p.2.function.occurrences, m.HasCost settings r v p.1)
      (p.2.dualOf (m.cost settings r)) := by
  have hc := hm.fits hp
  have hfunction := backend_function hp
  have hset := backend_set hp
  obtain ⟨ci, f, set⟩ := p
  cases f with
  | singleVariable w =>
    rw [Backend.stationaryDual, hfunction, ofQuery_ok, pure_bind]
    exact ((reducedCost_computes hm ht ci).bind_pure Value.scalar).congr
      (by simp [ModelFunction.occurrences]) fun _ => rfl
  | vectorOfVariables vs =>
    rw [Backend.stationaryDual, hfunction, ofQuery_ok, pure_bind]
    have hcosts : (vs.mapM (m.backend.reducedCost settings r ci)).Computes _ _ :=
      Computes.mapM fun v _ => reducedCost_computes hm ht ci
    refine (hcosts.bind fun _ => ?_).congr (Iff.of_eq (and_true _)) fun _ => rfl
    have hlen : (vs.map (m.cost settings r)).length = set.dimension :=
      (List.length_map _).trans hc.dimension
    rw [hset, ofQuery_ok, pure_bind, InnerProduct.represent_eq_ok set.fits_dimension hlen,
      ofChecked_ok, pure_bind]
    exact Computes.of_pure trivial _
  | _ => cases hkind

theorem recoverDual_computes (hm : m.Valid) (ht : 0 ≤ settings.zeroTolerance)
    (hp : p ∈ m.numbered) (hkind : p.2.function.kind.isVariableWise = true) :
    (m.backend.recoverDual settings r p.1).Computes
      (∀ v ∈ p.2.function.occurrences, m.HasCost settings r v p.1)
      (p.2.dualOf (m.cost settings r)) := fun _ =>
  returns_concluded.trans (stationaryDual_computes hm ht hp hkind _)

/-! ### Whether it is stationary -/

variable (m r v) in
/-- The sum of the adjoints of the affine constraints at the duals that are reported for them. -/
def affineAdjoint : ℚ :=
  ((m.numbered.filter fun p => p.2.function.kind.isAffine).map (m.reportedAdjoint r v)).sum

/-- Without a tolerance, only constraints that contribute nothing are passed over. -/
theorem contribution_of_zeroTolerance {settings : Settings ℚ} (hzero : settings.zeroTolerance = 0)
    (hm : m.Valid) (hp : p ∈ m.numbered) :
    m.contribution settings r v p =
      if p.2.function.kind.isAffine = true then m.reportedAdjoint r v p else 0 := by
  rw [contribution, hzero]
  by_cases hkind : p.2.function.kind.isAffine = true
  · rw [if_pos hkind]
    by_cases h : p.2.function.Exceeds v 0
    · exact if_pos h
    · rw [if_neg h]
      cases hdual : m.dual p.1 r with
      | error e => exact (reportedAdjoint_of_error hdual).symm
      | ok y =>
        rw [reportedAdjoint_of_dual hdual, Constraint.adjoint_of_not_exceeds (hm.fits hp)
          (hm.admits_of_dual hp hdual) hkind h]
  · rw [if_neg hkind]
    exact if_neg fun h => hkind h.isAffine

theorem contribution_default (hm : m.Valid) (hp : p ∈ m.numbered) :
    m.contribution Settings.default r v p =
      if p.2.function.kind.isAffine = true then m.reportedAdjoint r v p else 0 :=
  contribution_of_zeroTolerance rfl hm hp

theorem adjoint_eq_contribution (hm : m.Valid) (hp : p ∈ m.numbered)
    (hkind : p.2.function.kind.isAffine = true) {y : Value ℚ} (hy : m.dual p.1 r = .ok y) :
    p.2.adjoint y v = m.contribution Settings.default r v p := by
  rw [contribution_default hm hp, if_pos hkind, reportedAdjoint_of_dual hy]

theorem sum_contribution_default (hm : m.Valid) (r : ℕ) (v : VariableIndex) :
    (m.numbered.map (m.contribution Settings.default r v)).sum = m.affineAdjoint r v := by
  rw [List.map_congr_left fun p hp => contribution_default hm hp, sum_map_ite_zero]
  simp only [Bool.decide_eq_true]
  rfl

theorem cost_default (hm : m.Valid) :
    m.cost Settings.default r v = m.gradient r v - m.affineAdjoint r v := by
  rw [cost, sum_contribution_default hm]

/-- A recovered dual counts what the affine constraints leave of the gradient once for each position
of the variable. So it is stationary for a variable that has one position, and for another only if
nothing is left. -/
theorem recoverDual_stationary_iff (hm : m.Reachable) (hp : p ∈ m.numbered)
    (hkind : p.2.function.kind.isVariableWise = true) {y : Value ℚ}
    (hy : (m.backend.recoverDual Settings.default r p.1).Returns y)
    (hv : v ∈ p.2.function.occurrences) :
    (∀ q ∈ m.numbered, q.2.function.Exceeds v 0 → m.HasDual r q.1) ∧
    p.2.adjoint y v =
      p.2.function.occurrences.count v * (m.gradient r v - m.affineAdjoint r v) ∧
    (m.gradient r v = m.affineAdjoint r v + p.2.adjoint y v ↔
      p.2.function.occurrences.count v = 1 ∨ m.gradient r v = m.affineAdjoint r v) := by
  have hc := hm.valid.fits hp
  have hcomputes := recoverDual_computes (r := r) hm.valid Settings.zeroTolerance_default_nonneg
    hp hkind
  have hallows := (hcomputes.condition hy v hv).2
  have hadjoint : p.2.adjoint y v =
      p.2.function.occurrences.count v * (m.gradient r v - m.affineAdjoint r v) := by
    rw [hcomputes.eq hy, Constraint.adjoint_dualOf hc hkind, cost_default hm.valid]
  refine ⟨fun q hq => (hallows q hq).reported, hadjoint, ?_⟩
  rw [hadjoint]
  constructor
  · intro h
    have hfactor : ((p.2.function.occurrences.count v : ℚ) - 1) *
        (m.gradient r v - m.affineAdjoint r v) = 0 := by linarith
    rcases mul_eq_zero.mp hfactor with h1 | h0
    · exact .inl (by exact_mod_cast sub_eq_zero.mp h1)
    · exact .inr (sub_eq_zero.mp h0)
  · rintro (h1 | h0)
    · rw [h1, Nat.cast_one, one_mul, add_sub_cancel]
    · rw [h0, sub_self, mul_zero, add_zero]

/-- A variable that stands twice on the diagonal of a matrix, and one off it. -/
def repeated : Store ℚ := runAll .empty
  [.addVariables 2, .addConstraint (.vectorOfVariables [⟨0⟩, ⟨1⟩, ⟨0⟩]) (.psdTriangleCone 2),
    .addConstraint (.scalarAffine ⟨[⟨1, ⟨0⟩⟩], 0⟩) (.greaterThan 1),
    .setObjective .minimize (.scalarAffine ⟨[⟨3, ⟨0⟩⟩, ⟨6, ⟨1⟩⟩], 0⟩),
    .reportDual 0 ⟨⟨.scalarAffine, .greaterThan⟩, 1⟩ (.scalar 1)]

/-- The variable off the diagonal has one position; its entry of the dual counts twice. -/
theorem recoverDual_repeated :
    repeated.Reachable ∧
      (repeated.backend.recoverDual Settings.default 0
        ⟨⟨.vectorOfVariables, .psdTriangleCone⟩, 0⟩).Returns (.vector [2, 3, 2]) ∧
      repeated.gradient 0 ⟨1⟩ = repeated.affineAdjoint 0 ⟨1⟩ +
        Constraint.adjoint ⟨.vectorOfVariables [⟨0⟩, ⟨1⟩, ⟨0⟩], .psdTriangleCone 2⟩
          (.vector [2, 3, 2]) ⟨1⟩ := by
  have hm : repeated.Reachable := ⟨_, rfl⟩
  have hp : (⟨⟨.vectorOfVariables, .psdTriangleCone⟩, 0⟩,
      ⟨.vectorOfVariables [⟨0⟩, ⟨1⟩, ⟨0⟩], .psdTriangleCone 2⟩) ∈ repeated.numbered := by
    decide +kernel
  have hy : (repeated.backend.recoverDual Settings.default 0
      ⟨⟨.vectorOfVariables, .psdTriangleCone⟩, 0⟩).Returns (.vector [2, 3, 2]) := by
    rw [Returns]
    decide +kernel
  obtain ⟨-, -, hiff⟩ := recoverDual_stationary_iff hm hp rfl hy (v := ⟨1⟩) (by decide)
  exact ⟨hm, hy, hiff.mpr (.inl (by decide))⟩

/-- For the variable on the diagonal the dual is not stationary. -/
theorem not_recoverDual_stationary :
    ¬∀ (m : Store ℚ) (r : ℕ) (p : ConstraintIndex × Constraint ℚ) (y : Value ℚ)
      (v : VariableIndex), m.Reachable → p ∈ m.numbered →
      p.2.function.kind.isVariableWise = true →
      (m.backend.recoverDual Settings.default r p.1).Returns y →
      v ∈ p.2.function.occurrences →
      m.gradient r v = m.affineAdjoint r v + p.2.adjoint y v := by
  intro h
  have heq := h repeated 0 (⟨⟨.vectorOfVariables, .psdTriangleCone⟩, 0⟩,
    ⟨.vectorOfVariables [⟨0⟩, ⟨1⟩, ⟨0⟩], .psdTriangleCone 2⟩) (.vector [2, 3, 2]) ⟨0⟩ ⟨_, rfl⟩
    (by decide +kernel) rfl (by rw [Returns]; decide +kernel) (by decide)
  revert heq
  decide +kernel

/-! ### Recovery of a given dual -/

/-- What the affine constraints leave of the gradient is the adjoint of the only constraint on
single variables that has the variable. -/
theorem cost_of_stationary (hm : m.Valid)
    (hlinear : ∀ q ∈ m.numbered, q.2.function.kind.isQuadratic = false)
    {y : ConstraintIndex → Value ℚ}
    (hreported : ∀ q ∈ m.numbered, q.2.function.kind.isAffine = true →
      m.dual q.1 r = .ok (y q.1))
    (hp : p ∈ m.numbered) (hkind : p.2.function.kind.isVariableWise = true)
    (hstationary : m.gradient r v = (m.numbered.map fun q => q.2.adjoint (y q.1) v).sum)
    (hunrelated : ∀ q ∈ m.numbered, q.2.function.kind.isVariableWise = true → q.1 ≠ p.1 →
      v ∉ q.2.function.occurrences) :
    m.cost Settings.default r v = p.2.adjoint (y p.1) v := by
  have hsplit : ∀ q ∈ m.numbered, q.2.adjoint (y q.1) v =
      m.contribution Settings.default r v q + if q = p then p.2.adjoint (y p.1) v else 0 := by
    intro q hq
    by_cases haffine : q.2.function.kind.isAffine = true
    · have hne : q ≠ p := by
        rintro rfl
        rw [(FunctionKind.isAffine_iff.mp haffine).2] at hkind
        cases hkind
      rw [if_neg hne, add_zero]
      exact adjoint_eq_contribution hm hq haffine (hreported q hq haffine)
    rw [contribution_default hm hq, if_neg haffine, zero_add]
    by_cases heq : q = p
    · rw [if_pos heq, heq]
    · have hwise := FunctionKind.isVariableWise_of_not_isAffine (hlinear q hq) haffine
      have hne : q.1 ≠ p.1 := fun h => heq (eq_of_mem_numbered hq hp h)
      rw [if_neg heq]
      exact Constraint.adjoint_of_not_mem hwise (hunrelated q hq hwise hne) _
  rw [cost, hstationary, List.map_congr_left hsplit, List.sum_map_add,
    sum_map_single m.nodup_numbered hp, add_sub_cancel_left]

/-- If the duals of all constraints are stationary together, and those of the affine constraints are
reported, then the dual of a constraint on variables of its own is recovered as it was. -/
theorem recoverDual_of_stationary (hm : m.Reachable)
    (hlinear : ∀ q ∈ m.numbered, q.2.function.kind.isQuadratic = false)
    (y : ConstraintIndex → Value ℚ) (hshape : ∀ q ∈ m.numbered, q.2.admits (y q.1) = true)
    (hreported : ∀ q ∈ m.numbered, q.2.function.kind.isAffine = true →
      m.dual q.1 r = .ok (y q.1))
    (hgradient : m.HasGradient r) (hp : p ∈ m.numbered)
    (hkind : p.2.function.kind.isVariableWise = true)
    (hstationary : ∀ v ∈ p.2.function.occurrences,
      m.gradient r v = (m.numbered.map fun q => q.2.adjoint (y q.1) v).sum)
    (hnodup : p.2.function.occurrences.Nodup)
    (hunrelated : ∀ q ∈ m.numbered, q.2.function.kind.isVariableWise = true → q.1 ≠ p.1 →
      ∀ v ∈ p.2.function.occurrences, v ∉ q.2.function.occurrences) :
    (m.backend.recoverDual Settings.default r p.1).Returns (y p.1) := by
  have hc := hm.valid.fits hp
  have hcost : ∀ v ∈ p.2.function.occurrences,
      m.cost Settings.default r v = p.2.adjoint (y p.1) v := fun v hv =>
    cost_of_stationary hm.valid hlinear hreported hp hkind (hstationary v hv)
      fun q hq hwise hne => hunrelated q hq hwise hne v hv
  have hvalue := Constraint.dualOf_congr hcost
  rw [Constraint.dualOf_adjoint hc hkind hnodup (hshape p hp)] at hvalue
  rw [← hvalue]
  refine (recoverDual_computes hm.valid Settings.zeroTolerance_default_nonneg hp hkind).returns
    fun v hv => ⟨hgradient, fun q hq => ?_⟩
  exact ⟨hlinear q hq, fun hwise hne => hunrelated q hq hwise hne v hv,
    fun h => ⟨_, hreported q hq h.isAffine⟩⟩

/-- Three variables of a matrix, with the sum of its diagonal fixed. -/
def trace : Store ℚ := runAll .empty
  [.addVariables 3, .addConstraint (.vectorOfVariables [⟨0⟩, ⟨1⟩, ⟨2⟩]) (.psdTriangleCone 2),
    .addConstraint (.scalarAffine ⟨[⟨1, ⟨0⟩⟩, ⟨1, ⟨2⟩⟩], 0⟩) (.equalTo 1),
    .setObjective .maximize (.scalarAffine ⟨[⟨-5, ⟨0⟩⟩, ⟨-6, ⟨1⟩⟩, ⟨-4, ⟨2⟩⟩], 0⟩),
    .reportDual 0 ⟨⟨.scalarAffine, .equalTo⟩, 1⟩ (.scalar 4)]

theorem recoverDual_trace :
    trace.Reachable ∧ (trace.backend.recoverDual Settings.default 0
      ⟨⟨.vectorOfVariables, .psdTriangleCone⟩, 0⟩).Returns (.vector [1, 3, 0]) := by
  have hm : trace.Reachable := ⟨_, rfl⟩
  have hp : (⟨⟨.vectorOfVariables, .psdTriangleCone⟩, 0⟩,
      ⟨.vectorOfVariables [⟨0⟩, ⟨1⟩, ⟨2⟩], .psdTriangleCone 2⟩) ∈ trace.numbered := by
    decide +kernel
  exact ⟨hm, recoverDual_of_stationary hm (by decide +kernel)
    (fun ci => if ci.number = 0 then .vector [1, 3, 0] else .scalar 4) (by decide +kernel)
    (by decide +kernel) (by decide +kernel) hp rfl (by decide +kernel) (by decide)
    (by decide +kernel)⟩

end Store

end DualRecovery
