import DualRecovery.ModelFunction.Coefficient
import DualRecovery.ModelFunction.Evaluate
import DualRecovery.Proofs.Rational

/-! Affine functions of exact scalars as their coefficients. A coefficient is the sum over the terms
in its variable, the column of a vector function has the coefficients of its rows, and a value is
the constant and the sum over all variables of coefficient times value. -/

namespace DualRecovery

theorem mapM_eq_ok {ε β γ : Type} {f : β → Except ε γ} {g : β → γ} {xs : List β}
    (h : ∀ x ∈ xs, f x = .ok (g x)) : xs.mapM f = .ok (xs.map g) := by
  induction xs with
  | nil => rfl
  | cons x xs ih =>
    rw [List.forall_mem_cons] at h
    rw [List.mapM_cons, h.1, ih h.2]
    rfl

/-! ### Rows -/

namespace VectorAffine

variable {α : Type}

/-- Row `k`, with the terms and the constant of that row. -/
def row [Zero α] (f : VectorAffine α) (k : ℕ) : ScalarAffine α :=
  ⟨(f.terms.filter (·.row = k)).map (·.term), f.constants.getD k 0⟩

theorem exists_of_mem_row [Zero α] {f : VectorAffine α} {k : ℕ} {t : AffineTerm α}
    (ht : t ∈ (f.row k).terms) : ∃ t' ∈ f.terms, t'.term = t := by
  obtain ⟨t', ht', rfl⟩ := List.mem_map.mp ht
  exact ⟨t', (List.mem_filter.mp ht').1, rfl⟩

end VectorAffine

/-- A loop over terms that adds a value to the row of each adds up the values row by row. -/
theorem foldlM_rows {ε τ : Type} (value : RowTerm τ → ℚ) {terms : List (RowTerm τ)}
    {step : List ℚ → RowTerm τ → Except ε (List ℚ)}
    (hstep : ∀ t ∈ terms, ∀ out : List ℚ, t.row < out.length →
      step out t = .ok (out.modify t.row (· + value t)))
    {out : List ℚ} (hrow : ∀ t ∈ terms, t.row < out.length) :
    terms.foldlM step out = .ok (out.mapIdx fun k x =>
      x + ((terms.filter (·.row = k)).map value).sum) := by
  induction terms generalizing out with
  | nil =>
    refine congrArg Except.ok (List.ext_getElem (by simp) fun k _ _ => ?_)
    simp
  | cons t terms ih =>
    rw [List.forall_mem_cons] at hstep hrow
    have hlen : (out.modify t.row (· + value t)).length = out.length := List.length_modify ..
    rw [List.foldlM_cons, hstep.1 out hrow.1]
    refine (ih hstep.2 (fun t' ht' => hlen ▸ hrow.2 t' ht')).trans ?_
    refine congrArg Except.ok (List.ext_getElem (by simp) fun k _ _ => ?_)
    rw [List.getElem_mapIdx, List.getElem_mapIdx, List.getElem_modify, List.filter_cons]
    by_cases hk : t.row = k
    · rw [if_pos hk, if_pos (decide_eq_true hk), List.map_cons, List.sum_cons, add_assoc]
    · rw [if_neg hk, if_neg (by simpa using hk)]

theorem addRows_eq_ok {τ : Type} {evaluate : τ → Except QueryError ℚ} (value : τ → ℚ)
    {terms : List (RowTerm τ)} (h : ∀ t ∈ terms, evaluate t.term = .ok (value t.term))
    {out : List ℚ} (hrow : ∀ t ∈ terms, t.row < out.length) :
    addRows evaluate out terms = .ok (out.mapIdx fun k x =>
      x + ((terms.filter (·.row = k)).map fun t => value t.term).sum) := by
  refine foldlM_rows (fun t => value t.term) (fun t ht out hout => ?_) hrow
  simp only [if_pos hout, h t ht]
  rfl

/-! ### Coefficients -/

/-- The coefficient of `v`: what the terms in it add up to. -/
def ScalarAffine.slope (f : ScalarAffine ℚ) (v : VariableIndex) : ℚ :=
  ((f.terms.filter (·.var = v)).map (·.coefficient)).sum

/-- The coefficients of `v` in the rows. -/
def VectorAffine.column (f : VectorAffine ℚ) (v : VariableIndex) : List ℚ :=
  (List.range f.constants.length).map fun k => (f.row k).slope v

theorem AffineTerm.mentions_eq {α : Type} (t : AffineTerm α) (v : VariableIndex) :
    t.mentions v = decide (t.var = v) :=
  rfl

theorem ScalarAffine.coefficient_eq_slope (f : ScalarAffine ℚ) (v : VariableIndex) :
    f.coefficient v = f.slope v := by
  have h := foldl_add_eq_add_sum 0 ((f.terms.filter (·.var = v)).map (·.coefficient))
  rw [List.foldl_map, zero_add] at h
  exact h

namespace VectorAffine

variable {f : VectorAffine ℚ}

theorem length_column (f : VectorAffine ℚ) (v : VariableIndex) :
    (f.column v).length = f.constants.length := by
  rw [column, List.length_map, List.length_range]

theorem getD_column {k : ℕ} (hk : k < f.constants.length) (v : VariableIndex) :
    (f.column v).getD k 0 = (f.row k).slope v := by
  simp [column, List.getD_eq_getElem?_getD, hk]

theorem slope_row (f : VectorAffine ℚ) (k : ℕ) (v : VariableIndex) :
    (f.row k).slope v =
      (((f.terms.filter (·.term.mentions v)).filter (·.row = k)).map (·.term.coefficient)).sum := by
  rw [ScalarAffine.slope, row, List.filter_map, List.map_map, List.filter_filter,
    List.filter_filter]
  simp only [Function.comp_def, AffineTerm.mentions_eq, Bool.and_comm]

theorem coefficient_eq_column (hrow : ∀ t ∈ f.terms, t.row < f.constants.length)
    (v : VariableIndex) : f.coefficient v = .ok (f.column v) := by
  refine (foldlM_rows (fun t : RowTerm (AffineTerm ℚ) => t.term.coefficient)
    (fun t _ out ht => addAt_of_lt ht _) fun t ht => ?_).trans
    (congrArg Except.ok (List.ext_getElem ?_ fun k hk hk' => ?_))
  · rw [List.length_replicate]
    exact hrow t (List.mem_filter.mp ht).1
  · simp [length_column]
  · rw [List.getElem_mapIdx, ← slope_row, List.getElem_replicate]
    simp only [column, List.getElem_map, List.getElem_range]
    exact zero_add _

end VectorAffine

/-! ### Values -/

/-- The sum of the terms at a point. -/
def ScalarAffine.linear (f : ScalarAffine ℚ) (x : VariableIndex → ℚ) : ℚ :=
  (f.terms.map fun t => t.coefficient * x t.var).sum

/-- The terms of a function, added up variable by variable. -/
theorem ScalarAffine.linear_eq_sum (f : ScalarAffine ℚ) (x : VariableIndex → ℚ)
    {V : Finset VariableIndex} (hV : ∀ t ∈ f.terms, t.var ∈ V) :
    f.linear x = ∑ v ∈ V, f.slope v * x v := by
  obtain ⟨terms, constant⟩ := f
  unfold linear
  induction terms with
  | nil => simp [slope]
  | cons t terms ih =>
    rw [List.forall_mem_cons] at hV
    have hslope : ∀ v ∈ V, slope ⟨t :: terms, constant⟩ v * x v =
        (if t.var = v then t.coefficient * x v else 0) + slope ⟨terms, constant⟩ v * x v := by
      intro v _
      by_cases hv : t.var = v
      · simp [slope, hv, add_mul]
      · simp [slope, hv]
    rw [List.map_cons, List.sum_cons, ih hV.2, Finset.sum_congr rfl hslope,
      Finset.sum_add_distrib, Finset.sum_ite_eq, if_pos hV.1]

theorem sum_terms_eq_sum_slopes (f : ScalarAffine ℚ) (x : VariableIndex → ℚ) {n : ℕ}
    (hn : ∀ t ∈ f.terms, t.var.number < n) :
    f.linear x = ∑ k ∈ Finset.range n, f.slope ⟨k⟩ * x ⟨k⟩ := by
  have hV : ∀ t ∈ f.terms, t.var ∈
      (Finset.range n).map ⟨VariableIndex.mk, fun _ _ => VariableIndex.mk.inj⟩ := fun t ht =>
    Finset.mem_map.mpr ⟨t.var.number, Finset.mem_range.mpr (hn t ht), rfl⟩
  rw [f.linear_eq_sum x hV, Finset.sum_map]
  rfl

variable {x : VariableIndex → ℚ} {lookup : Lookup ℚ} {n : ℕ}

theorem AffineTerm.evaluate_eq_ok {t : AffineTerm ℚ} (h : lookup t.var = .ok (x t.var)) :
    t.evaluate lookup = .ok (t.coefficient * x t.var) := by
  rw [evaluate, h]
  rfl

theorem ScalarAffine.evaluate_eq_linear {f : ScalarAffine ℚ}
    (h : ∀ t ∈ f.terms, lookup t.var = .ok (x t.var)) :
    f.evaluate lookup = .ok (f.linear x + f.constant) := by
  rw [evaluate, mapM_eq_ok fun t ht => AffineTerm.evaluate_eq_ok (h t ht)]
  exact congrArg (fun sum => Except.ok (sum + f.constant)) (pairwiseSum_eq_sum _)

theorem VectorAffine.evaluate_eq_linear {f : VectorAffine ℚ}
    (hrow : ∀ t ∈ f.terms, t.row < f.constants.length)
    (h : ∀ t ∈ f.terms, lookup t.term.var = .ok (x t.term.var)) :
    f.evaluate lookup = .ok ((List.range f.constants.length).map fun k =>
      (f.row k).linear x + (f.row k).constant) := by
  refine (addRows_eq_ok (fun t => t.coefficient * x t.var)
    (fun t ht => AffineTerm.evaluate_eq_ok (h t ht)) hrow).trans
    (congrArg Except.ok (List.ext_getElem (by simp) fun k hk hk' => ?_))
  have hlt : k < f.constants.length := by simpa using hk
  rw [List.getElem_mapIdx, List.getElem_map, List.getElem_range, ScalarAffine.linear, row,
    List.map_map, List.getD_eq_getElem _ _ hlt, add_comm]
  rfl

theorem ScalarAffine.evaluate_eq_ok (f : ScalarAffine ℚ)
    (hlookup : ∀ v, v.number < n → lookup v = .ok (x v)) (hn : ∀ t ∈ f.terms, t.var.number < n) :
    f.evaluate lookup = .ok (∑ k ∈ Finset.range n, f.slope ⟨k⟩ * x ⟨k⟩ + f.constant) := by
  rw [evaluate_eq_linear fun t ht => hlookup _ (hn t ht), sum_terms_eq_sum_slopes f x hn]

theorem VectorAffine.evaluate_eq_ok (f : VectorAffine ℚ)
    (hlookup : ∀ v, v.number < n → lookup v = .ok (x v))
    (hn : ∀ t ∈ f.terms, t.term.var.number < n)
    (hrow : ∀ t ∈ f.terms, t.row < f.constants.length) :
    f.evaluate lookup = .ok (f.constants.mapIdx fun k constant =>
      constant + ∑ j ∈ Finset.range n, (f.row k).slope ⟨j⟩ * x ⟨j⟩) := by
  rw [evaluate_eq_linear hrow fun t ht => hlookup _ (hn t ht)]
  refine congrArg Except.ok (List.ext_getElem (by simp) fun k hk hk' => ?_)
  have hlt : k < f.constants.length := by simpa using hk
  have hterms : ∀ t ∈ (f.row k).terms, t.var.number < n := by
    intro t ht
    obtain ⟨t', ht', rfl⟩ := exists_of_mem_row ht
    exact hn t' ht'
  rw [List.getElem_map, List.getElem_range, List.getElem_mapIdx,
    ← sum_terms_eq_sum_slopes (f.row k) x hterms, add_comm, row, List.getD_eq_getElem _ _ hlt]

end DualRecovery
