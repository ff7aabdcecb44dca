import DualRecovery.Proofs.ModelFunction.Coefficient
import DualRecovery.Proofs.ModelFunction.Occurrences

/-! Affine functions of exact scalars are known by their coefficients. The value of a function is
its constant and the sum over its variables of coefficient times value, and two functions have the
same values at all points just if they have the same constant and the same coefficients. The rows of
a vector function are scalar functions, so that what holds of these holds of its columns. -/

namespace DualRecovery

/-- The lookup has the values of `x` for the variables of `f`. -/
def Lookup.Gives (lookup : Lookup ℚ) (f : ModelFunction ℚ) (x : VariableIndex → ℚ) : Prop :=
  ∀ v ∈ f.distinctVariables, lookup v = .ok (x v)

theorem Lookup.Gives.of_mem {lookup : Lookup ℚ} {f : ModelFunction ℚ} {x : VariableIndex → ℚ}
    (h : lookup.Gives f x) {v : VariableIndex} (hv : v ∈ f.occurrences) : lookup v = .ok (x v) :=
  h v ((f.mem_distinctVariables v).mpr hv)

/-- The lookup of a point, where every variable has a value. -/
def Lookup.point (x : VariableIndex → ℚ) : Lookup ℚ := fun v => .ok (x v)

/-! ### Scalar functions -/

namespace ScalarAffine

variable {f g : ScalarAffine ℚ}

theorem slope_of_not_mentions {v : VariableIndex}
    (h : (ModelFunction.scalarAffine f).mentions v = false) : f.slope v = 0 := by
  have hterms : f.terms.filter (·.var = v) = [] := by
    refine List.filter_eq_nil_iff.mpr fun t ht => ?_
    have := List.any_eq_false.mp h t ht
    rwa [AffineTerm.mentions_eq] at this
  rw [slope, hterms, List.map_nil, List.sum_nil]

theorem linear_zero (f : ScalarAffine ℚ) : f.linear 0 = 0 := by
  simp [linear]

/-- At a unit point the terms in its variable are left. -/
theorem linear_single (f : ScalarAffine ℚ) (v : VariableIndex) :
    f.linear (Pi.single v 1) = f.slope v := by
  have hterm : ∀ t ∈ f.terms, t.coefficient * (Pi.single v 1 : VariableIndex → ℚ) t.var =
      if t.var = v then t.coefficient else 0 := by
    intro t _
    rw [Pi.single_apply, mul_ite, mul_one, mul_zero]
  rw [linear, List.map_congr_left hterm, sum_map_ite_zero, slope]

theorem linear_congr (h : ∀ v, f.slope v = g.slope v) (x : VariableIndex → ℚ) :
    f.linear x = g.linear x := by
  -- The functions may have different variables, so both sums go over the variables of both.
  let V := ((f.terms ++ g.terms).map (·.var)).toFinset
  have hf : ∀ t ∈ f.terms, t.var ∈ V := fun t ht =>
    List.mem_toFinset.mpr (List.mem_map_of_mem (List.mem_append_left _ ht))
  have hg : ∀ t ∈ g.terms, t.var ∈ V := fun t ht =>
    List.mem_toFinset.mpr (List.mem_map_of_mem (List.mem_append_right _ ht))
  rw [f.linear_eq_sum x hf, g.linear_eq_sum x hg]
  exact Finset.sum_congr rfl fun v _ => by rw [h v]

theorem forall_linear_eq_iff :
    (∀ x, f.linear x + f.constant = g.linear x + g.constant) ↔
      f.constant = g.constant ∧ ∀ v, f.slope v = g.slope v := by
  constructor
  · intro h
    have hconstant : f.constant = g.constant := by
      simpa only [linear_zero, zero_add] using h 0
    refine ⟨hconstant, fun v => ?_⟩
    have hunit := h (Pi.single v 1)
    rw [hconstant, linear_single, linear_single] at hunit
    exact add_right_cancel hunit
  · rintro ⟨hconstant, hslope⟩ x
    rw [linear_congr hslope, hconstant]

theorem linear_eq_sum_map (f : ScalarAffine ℚ) (x : VariableIndex → ℚ) {vs : List VariableIndex}
    (hnodup : vs.Nodup) (hvs : ∀ t ∈ f.terms, t.var ∈ vs) :
    f.linear x = (vs.map fun v => f.slope v * x v).sum := by
  rw [f.linear_eq_sum x fun t ht => List.mem_toFinset.mpr (hvs t ht), List.sum_toFinset _ hnodup]

variable {x : VariableIndex → ℚ} {lookup : Lookup ℚ}

theorem evaluate_eq_sum_slopes (h : lookup.Gives (.scalarAffine f) x) :
    f.evaluate lookup = .ok (f.constant +
      ((ModelFunction.scalarAffine f).distinctVariables.map fun v => f.slope v * x v).sum) := by
  rw [evaluate_eq_linear fun t ht => h.of_mem (var_mem_occurrences ht), add_comm,
    f.linear_eq_sum_map x (ModelFunction.nodup_distinctVariables _) fun t ht =>
      (ModelFunction.mem_distinctVariables _ _).mpr (var_mem_occurrences ht)]

theorem forall_evaluate_eq_iff :
    (∀ x, f.evaluate (.point x) = g.evaluate (.point x)) ↔
      f.constant = g.constant ∧ ∀ v, f.slope v = g.slope v := by
  have hpoint (f : ScalarAffine ℚ) (x : VariableIndex → ℚ) :
      f.evaluate (.point x) = .ok (f.linear x + f.constant) := evaluate_eq_linear fun _ _ => rfl
  simp only [hpoint, Except.ok.injEq, forall_linear_eq_iff]

end ScalarAffine

/-! ### Vector functions -/

namespace VectorAffine

variable {f g : VectorAffine ℚ}

theorem slope_row_of_not_mentions {v : VariableIndex}
    (h : (ModelFunction.vectorAffine f).mentions v = false) (k : ℕ) : (f.row k).slope v = 0 := by
  refine ScalarAffine.slope_of_not_mentions (List.any_eq_false.mpr fun t ht => ?_)
  obtain ⟨t', ht', rfl⟩ := exists_of_mem_row ht
  exact List.any_eq_false.mp h t' ht'

theorem column_of_not_mentions {v : VariableIndex}
    (h : (ModelFunction.vectorAffine f).mentions v = false) :
    f.column v = List.replicate f.constants.length 0 := by
  refine List.eq_replicate_iff.mpr ⟨length_column f v, fun a ha => ?_⟩
  obtain ⟨k, -, rfl⟩ := List.mem_map.mp ha
  exact slope_row_of_not_mentions h k

/-- Columns and constants are made of the coefficients and the constants of the rows. -/
theorem constants_column_eq_iff (hlength : f.constants.length = g.constants.length) :
    (f.constants = g.constants ∧ ∀ v, f.column v = g.column v) ↔
      ∀ k < f.constants.length, (f.row k).constant = (g.row k).constant ∧
        ∀ v, (f.row k).slope v = (g.row k).slope v := by
  constructor
  · rintro ⟨hconstants, hcolumn⟩ k hk
    refine ⟨congrArg (List.getD · k 0) hconstants, fun v => ?_⟩
    rw [← getD_column hk, ← getD_column (hlength ▸ hk), hcolumn v]
  · intro h
    refine ⟨List.ext_getElem hlength fun k hk hk' => ?_, fun v => ?_⟩
    · have hconstant := (h k hk).1
      rwa [row, row, List.getD_eq_getElem _ _ hk, List.getD_eq_getElem _ _ hk'] at hconstant
    · rw [column, column, ← hlength]
      exact List.map_congr_left fun k hk => (h k (List.mem_range.mp hk)).2 v

variable {x : VariableIndex → ℚ} {lookup : Lookup ℚ}

theorem evaluate_eq_sum_columns (hrow : ∀ t ∈ f.terms, t.row < f.constants.length)
    (h : lookup.Gives (.vectorAffine f) x) :
    f.evaluate lookup = .ok (f.constants.mapIdx fun k constant => constant +
      ((ModelFunction.vectorAffine f).distinctVariables.map fun v =>
        (f.column v).getD k 0 * x v).sum) := by
  rw [evaluate_eq_linear hrow fun t ht => h.of_mem (var_mem_occurrences ht)]
  refine congrArg Except.ok (List.ext_getElem (by simp) fun k hk hk' => ?_)
  have hlt : k < f.constants.length := by simpa using hk
  have hterms : ∀ t ∈ (f.row k).terms,
      t.var ∈ (ModelFunction.vectorAffine f).distinctVariables := by
    intro t ht
    obtain ⟨t', ht', rfl⟩ := exists_of_mem_row ht
    exact (ModelFunction.mem_distinctVariables _ _).mpr (var_mem_occurrences ht')
  rw [List.getElem_map, List.getElem_range, List.getElem_mapIdx, add_comm,
    (f.row k).linear_eq_sum_map x (ModelFunction.nodup_distinctVariables _) hterms]
  simp only [getD_column hlt, row, List.getD_eq_getElem _ _ hlt]

theorem forall_evaluate_eq_iff (hf : ∀ t ∈ f.terms, t.row < f.constants.length)
    (hg : ∀ t ∈ g.terms, t.row < g.constants.length) :
    (∀ x, f.evaluate (.point x) = g.evaluate (.point x)) ↔
      f.constants = g.constants ∧ ∀ v, f.column v = g.column v := by
  have hpoint {f : VectorAffine ℚ} (hf : ∀ t ∈ f.terms, t.row < f.constants.length)
      (x : VariableIndex → ℚ) : f.evaluate (.point x) =
        .ok ((List.range f.constants.length).map fun k =>
          (f.row k).linear x + (f.row k).constant) := evaluate_eq_linear hf fun _ _ => rfl
  simp only [hpoint hf, hpoint hg, Except.ok.injEq]
  constructor
  · intro h
    have hlength : f.constants.length = g.constants.length := by
      simpa using congrArg List.length (h 0)
    refine (constants_column_eq_iff hlength).mpr fun k hk =>
      ScalarAffine.forall_linear_eq_iff.mp fun x => ?_
    have hentry := h x
    rw [← hlength] at hentry
    exact List.map_inj_left.mp hentry k (List.mem_range.mpr hk)
  · rintro ⟨hconstants, hcolumn⟩ x
    have hlength := congrArg List.length hconstants
    have hrows := (constants_column_eq_iff hlength).mp ⟨hconstants, hcolumn⟩
    rw [← hlength]
    exact List.map_congr_left fun k hk =>
      ScalarAffine.forall_linear_eq_iff.mpr (hrows k (List.mem_range.mp hk)) x

end VectorAffine

/-! ### Values and coefficients -/

namespace ModelFunction

/-- Evaluation and coefficients describe the same affine map: a value is the constant and the sum
over the variables of coefficient times value, a variable that is not mentioned has the coefficient
zero, and functions with the same values everywhere are those with the same constant and the same
coefficients. -/
theorem evaluate_eq_coefficients :
    (∀ (f : ScalarAffine ℚ) (x : VariableIndex → ℚ) (lookup : Lookup ℚ),
      lookup.Gives (.scalarAffine f) x →
      f.evaluate lookup = .ok (f.constant +
        ((scalarAffine f).distinctVariables.map fun v => f.coefficient v * x v).sum)) ∧
    (∀ (f : ScalarAffine ℚ) (v : VariableIndex),
      (scalarAffine f).mentions v = false → f.coefficient v = 0) ∧
    (∀ f g : ScalarAffine ℚ, (∀ x, f.evaluate (.point x) = g.evaluate (.point x)) ↔
      f.constant = g.constant ∧ ∀ v, f.coefficient v = g.coefficient v) ∧
    (∀ f : VectorAffine ℚ, (∀ t ∈ f.terms, t.row < f.constants.length) →
      ∃ column : VariableIndex → List ℚ,
        (∀ v, f.coefficient v = .ok (column v) ∧ (column v).length = f.constants.length) ∧
        (∀ (x : VariableIndex → ℚ) (lookup : Lookup ℚ), lookup.Gives (.vectorAffine f) x →
          f.evaluate lookup = .ok (f.constants.mapIdx fun k constant => constant +
            ((vectorAffine f).distinctVariables.map fun v =>
              (column v).getD k 0 * x v).sum)) ∧
        ∀ v, (vectorAffine f).mentions v = false →
          column v = List.replicate f.constants.length 0) ∧
    ∀ f g : VectorAffine ℚ, (∀ t ∈ f.terms, t.row < f.constants.length) →
      (∀ t ∈ g.terms, t.row < g.constants.length) →
      ((∀ x, f.evaluate (.point x) = g.evaluate (.point x)) ↔
        f.constants = g.constants ∧ ∀ v, f.coefficient v = g.coefficient v) := by
  simp only [ScalarAffine.coefficient_eq_slope]
  refine ⟨fun f x lookup => ScalarAffine.evaluate_eq_sum_slopes,
    fun f v => ScalarAffine.slope_of_not_mentions,
    fun f g => ScalarAffine.forall_evaluate_eq_iff, fun f hrow => ?_, fun f g hf hg => ?_⟩
  · exact ⟨f.column, fun v => ⟨VectorAffine.coefficient_eq_column hrow v, f.length_column v⟩,
      fun x lookup => VectorAffine.evaluate_eq_sum_columns hrow,
      fun v => VectorAffine.column_of_not_mentions⟩
  · simp only [VectorAffine.forall_evaluate_eq_iff hf hg, VectorAffine.coefficient_eq_column hf,
      VectorAffine.coefficient_eq_column hg, Except.ok.injEq]

/-- The terms of the first row cancel. -/
def cancelling : VectorAffine ℚ :=
  ⟨[⟨0, ⟨2, ⟨0⟩⟩⟩, ⟨1, ⟨4, ⟨1⟩⟩⟩, ⟨0, ⟨-2, ⟨0⟩⟩⟩, ⟨1, ⟨1, ⟨1⟩⟩⟩], [6, 7]⟩

theorem evaluate_cancelling :
    (∀ t ∈ cancelling.terms, t.row < cancelling.constants.length) ∧
      (Lookup.point fun v => v.number).Gives (.vectorAffine cancelling) (fun v => v.number) ∧
      cancelling.coefficient ⟨0⟩ = .ok [0, 0] ∧ cancelling.coefficient ⟨1⟩ = .ok [0, 5] ∧
      cancelling.evaluate (.point fun v => v.number) = .ok [6, 12] ∧
      (vectorAffine cancelling).mentions ⟨2⟩ = false ∧
      cancelling.coefficient ⟨2⟩ = .ok [0, 0] := by
  have hrow : ∀ t ∈ cancelling.terms, t.row < cancelling.constants.length := by decide
  have hgives : (Lookup.point fun v => v.number).Gives (.vectorAffine cancelling)
      (fun v => v.number) := fun _ _ => rfl
  have hmentions : (vectorAffine cancelling).mentions ⟨2⟩ = false := by decide
  obtain ⟨-, -, -, hvector, -⟩ := evaluate_eq_coefficients
  obtain ⟨column, hcolumn, hvalue, hzero⟩ := hvector cancelling hrow
  have hfirst : cancelling.coefficient ⟨0⟩ = .ok [0, 0] := by decide +kernel
  have hsecond : cancelling.coefficient ⟨1⟩ = .ok [0, 5] := by decide +kernel
  have hcolumn0 : column ⟨0⟩ = [0, 0] := Except.ok.inj ((hcolumn _).1.symm.trans hfirst)
  have hcolumn1 : column ⟨1⟩ = [0, 5] := Except.ok.inj ((hcolumn _).1.symm.trans hsecond)
  have hvariables : (vectorAffine cancelling).distinctVariables = [⟨0⟩, ⟨1⟩] := by decide
  refine ⟨hrow, hgives, hfirst, hsecond, (hvalue _ _ hgives).trans ?_, hmentions,
    (hcolumn _).1.trans (congrArg Except.ok (hzero _ hmentions))⟩
  simp only [hvariables, List.map_cons, List.map_nil, hcolumn0, hcolumn1]
  decide +kernel

end ModelFunction

end DualRecovery
