import DualRecovery.Proofs.Recovery.Queries

/-! What becomes of a reduced cost when the tolerance for coefficients is raised: fewer duals are
asked for, so it is still found, and it changes by no more than the tolerance times the size of the
duals that are not asked for any more. -/

namespace DualRecovery

open Scalar Traced

/-- The size of the dual of a constraint, if it is reported. -/
def reportedMass (dual : ConstraintIndex → ℕ → Except QueryError (Value ℚ)) (r : ℕ)
    (p : ConstraintIndex × Constraint ℚ) : ℚ :=
  match dual p.1 r with
  | .ok y => p.2.set.dualMass y
  | .error _ => 0

/-- The size of the duals of those constraints that are among the queries `asked` but not among
`kept`. -/
def droppedMass (constraints : List (ConstraintIndex × Constraint ℚ))
    (dual : ConstraintIndex → ℕ → Except QueryError (Value ℚ)) (r : ℕ) (asked kept : List Query) :
    ℚ :=
  ((constraints.filter fun p => .constraintDual p.1 r ∈ asked ∧ .constraintDual p.1 r ∉ kept).map
    (reportedMass dual r)).sum

/-! ### Coefficients above two tolerances -/

variable {s s' : Settings ℚ}

theorem ModelFunction.Exceeds.mono {f : ModelFunction ℚ} {v : VariableIndex} {t t' : ℚ}
    (h : f.Exceeds v t') (ht : t ≤ t') : f.Exceeds v t := by
  cases f with
  | scalarAffine f => exact ht.trans_lt h
  | vectorAffine f => exact h.imp fun a ⟨ha, hlt⟩ => ⟨ha, ht.trans_lt hlt⟩
  | _ => exact h

theorem Backend.Matters.mono {b : Backend ℚ} {v : VariableIndex} {ci : ConstraintIndex}
    (h : b.Matters s' v ci) (hle : s.zeroTolerance ≤ s'.zeroTolerance) : b.Matters s v ci :=
  h.imp fun _ ⟨ha, hnot⟩ => ⟨ha, fun h' => hnot (h'.trans hle)⟩

theorem Backend.relevant_sublist (b : Backend ℚ) (v : VariableIndex)
    (hle : s.zeroTolerance ≤ s'.zeroTolerance) :
    (b.relevant s' v).Sublist (b.relevant s v) :=
  List.monotone_filter_right _ fun _ h => decide_eq_true ((of_decide_eq_true h).mono hle)

namespace Store

variable {m : Store ℚ} {p : ConstraintIndex × Constraint ℚ} {r : ℕ} {v : VariableIndex}
  {excluded : ConstraintIndex}

/-! ### The duals that are asked for -/

theorem matters_iff_exceeds (hm : m.Valid) (hp : p ∈ m.numbered) :
    m.backend.Matters s v p.1 ↔ p.2.function.Exceeds v s.zeroTolerance := by
  have hc := hm.fits hp
  rw [Backend.Matters, Backend.coefficients, backend_function hp]
  obtain ⟨ci, f, set⟩ := p
  cases f with
  | scalarAffine f =>
    simp [ModelFunction.Exceeds, f.coefficient_eq_slope, magnitude_rat]
  | vectorAffine f =>
    have hcolumn := f.coefficient_eq_column
      (fun t ht => hc.function.rows _ (List.mem_map_of_mem ht)) v
    simp [ModelFunction.Exceeds, hcolumn, magnitude_rat, Except.toOption]
  | _ => simp [ModelFunction.Exceeds]

theorem mem_relevant_iff (hm : m.Valid) (hp : p ∈ m.numbered) :
    p.1 ∈ m.backend.relevant s v ↔ p.2.function.Exceeds v s.zeroTolerance := by
  rw [← matters_iff_exceeds hm hp]
  constructor
  · exact fun h => of_decide_eq_true (List.mem_filter.mp h).2
  · intro h
    have haffine : p.1.family.kind.isAffine = true := by
      rw [kind_of_mem_numbered hp]
      exact ((matters_iff_exceeds hm hp).mp h).isAffine
    exact Backend.mem_relevant (mem_families_of_mem_numbered hp) haffine
      (mem_indices_of_mem_numbered hp) h

theorem queries_of_returns (hs : 0 ≤ s.zeroTolerance) {x : ℚ}
    (h : (m.backend.reducedCost s r excluded v).Returns x) :
    (m.backend.reducedCost s r excluded v).queries =
      (m.backend.relevant s v).map (Query.constraintDual · r) := by
  rw [← Backend.filterMap_query_costStages]
  exact (Backend.reducedCost_follows hs).queries_of_ok h

theorem mem_queries_iff (hm : m.Valid) (hs : 0 ≤ s.zeroTolerance) {x : ℚ}
    (h : (m.backend.reducedCost s r excluded v).Returns x) (hp : p ∈ m.numbered) :
    .constraintDual p.1 r ∈ (m.backend.reducedCost s r excluded v).queries ↔
      p.2.function.Exceeds v s.zeroTolerance := by
  rw [queries_of_returns hs h, ← mem_relevant_iff hm hp]
  simp

/-! ### The reduced costs at two tolerances -/

theorem HasCost.mono (h : m.HasCost s r v excluded)
    (hle : s.zeroTolerance ≤ s'.zeroTolerance) : m.HasCost s' r v excluded :=
  ⟨h.1, fun p hp => ⟨(h.2 p hp).linear, (h.2 p hp).unrelated,
    fun he => (h.2 p hp).reported (he.mono hle)⟩⟩

theorem abs_reportedAdjoint_le (hm : m.Valid) (hp : p ∈ m.numbered) {t : ℚ}
    (hkind : p.2.function.kind.isAffine = true) (h : ¬p.2.function.Exceeds v t) :
    |m.reportedAdjoint r v p| ≤ t * reportedMass m.dual r p := by
  rw [reportedMass]
  cases hdual : m.dual p.1 r with
  | ok y =>
    rw [reportedAdjoint_of_dual hdual]
    exact Constraint.abs_adjoint_le (hm.fits hp) (hm.admits_of_dual hp hdual) hkind h
  | error e => rw [reportedAdjoint_of_error hdual, abs_zero, mul_zero]

/-- The contributions differ where a coefficient is above one tolerance and none above the other. -/
theorem abs_contribution_sub_le (hm : m.Valid) (hle : s.zeroTolerance ≤ s'.zeroTolerance)
    (hp : p ∈ m.numbered) :
    |m.contribution s r v p - m.contribution s' r v p| ≤
      if p.2.function.Exceeds v s.zeroTolerance ∧ ¬p.2.function.Exceeds v s'.zeroTolerance
      then s'.zeroTolerance * reportedMass m.dual r p else 0 := by
  unfold contribution
  by_cases h' : p.2.function.Exceeds v s'.zeroTolerance
  · rw [if_pos (h'.mono hle), if_pos h', if_neg fun h => h.2 h', sub_self, abs_zero]
  · by_cases h : p.2.function.Exceeds v s.zeroTolerance
    · rw [if_pos h, if_neg h', if_pos ⟨h, h'⟩, sub_zero]
      exact abs_reportedAdjoint_le hm hp h.isAffine h'
    · rw [if_neg h, if_neg h', if_neg fun h' => h h'.1, sub_zero, abs_zero]

theorem abs_cost_sub_cost_le (hm : m.Valid) (hle : s.zeroTolerance ≤ s'.zeroTolerance)
    {asked kept : List Query}
    (hasked : ∀ p ∈ m.numbered,
      .constraintDual p.1 r ∈ asked ↔ p.2.function.Exceeds v s.zeroTolerance)
    (hkept : ∀ p ∈ m.numbered,
      .constraintDual p.1 r ∈ kept ↔ p.2.function.Exceeds v s'.zeroTolerance) :
    |m.cost s r v - m.cost s' r v| ≤
      s'.zeroTolerance * droppedMass m.numbered m.dual r asked kept := by
  have hdropped : (m.numbered.filter fun p =>
        .constraintDual p.1 r ∈ asked ∧ .constraintDual p.1 r ∉ kept) =
      m.numbered.filter fun p => p.2.function.Exceeds v s.zeroTolerance ∧
        ¬p.2.function.Exceeds v s'.zeroTolerance :=
    List.filter_congr fun p hp => by simp only [hasked p hp, hkept p hp]
  rw [cost, cost, sub_sub_sub_cancel_left, abs_sub_comm, droppedMass, hdropped,
    ← List.sum_map_mul_left, ← sum_map_ite_zero]
  exact abs_sum_sub_sum_le fun p hp => abs_contribution_sub_le hm hle hp

theorem reducedCost_mono (hm : m.Valid) (hs : 0 ≤ s.zeroTolerance)
    (hle : s.zeroTolerance ≤ s'.zeroTolerance) {x : ℚ}
    (h : (m.backend.reducedCost s r excluded v).Returns x) :
    ∃ x', (m.backend.reducedCost s' r excluded v).Returns x' ∧
      (m.backend.reducedCost s' r excluded v).queries.Sublist
        (m.backend.reducedCost s r excluded v).queries ∧
      |x - x'| ≤ s'.zeroTolerance * droppedMass m.numbered m.dual r
        (m.backend.reducedCost s r excluded v).queries
        (m.backend.reducedCost s' r excluded v).queries := by
  have hs' : 0 ≤ s'.zeroTolerance := hs.trans hle
  have hcomputes := reducedCost_computes (r := r) (v := v) hm hs excluded
  have hcomputes' := reducedCost_computes (r := r) (v := v) hm hs' excluded
  have h' := hcomputes'.returns ((hcomputes.condition h).mono hle)
  refine ⟨m.cost s' r v, h', ?_, ?_⟩
  · rw [queries_of_returns hs h, queries_of_returns hs' h']
    exact (m.backend.relevant_sublist v hle).map _
  · rw [hcomputes.eq h]
    exact abs_cost_sub_cost_le hm hle (fun p hp => mem_queries_iff hm hs h hp)
      fun p hp => mem_queries_iff hm hs' h' hp

end Store

end DualRecovery
