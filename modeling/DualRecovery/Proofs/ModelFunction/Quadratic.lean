import DualRecovery.Proofs.ModelFunction.Affine

/-! Quadratic functions of exact scalars as `xᵀQx / 2 + aᵀx + b` with a symmetric matrix `Q`: the
coefficients of the terms in two variables, in either order, add up to the entries of `Q`. The value
of a vector function is the list of the values of its rows. -/

namespace DualRecovery

open Scalar

/-! ### Terms -/

namespace QuadraticTerm

/-- The variables of the term are `v` and `w`, in either order. -/
def Joins {α : Type} (t : QuadraticTerm α) (v w : VariableIndex) : Prop :=
  t.first = v ∧ t.second = w ∨ t.first = w ∧ t.second = v

instance {α : Type} (t : QuadraticTerm α) (v w : VariableIndex) : Decidable (t.Joins v w) :=
  inferInstanceAs (Decidable (_ ∨ _))

theorem joins_comm {α : Type} (t : QuadraticTerm α) (v w : VariableIndex) :
    t.Joins v w ↔ t.Joins w v :=
  or_comm

/-- The value of the term, of a square halved. -/
def value (t : QuadraticTerm ℚ) (x : VariableIndex → ℚ) : ℚ :=
  if t.first = t.second then t.coefficient * x t.first * x t.first / 2
  else t.coefficient * x t.first * x t.second

variable {t : QuadraticTerm ℚ} {x : VariableIndex → ℚ}

theorem evaluate_eq_ok {lookup : Lookup ℚ} (hfirst : lookup t.first = .ok (x t.first))
    (hsecond : lookup t.second = .ok (x t.second)) :
    t.evaluate lookup = .ok (t.value x) := by
  rw [evaluate, hfirst, value]
  by_cases h : t.first = t.second
  · rw [if_pos h, ← two_rat]
    show (if t.first = t.second then _ else _) = _
    rw [if_pos h]
    rfl
  · show (if t.first = t.second then _ else _) = _
    rw [if_neg h, if_neg h, hsecond]
    rfl

theorem sum_pair {V : Finset VariableIndex} {a b : VariableIndex} (ha : a ∈ V) (hb : b ∈ V)
    (e : ℚ) : ∑ v ∈ V, ∑ w ∈ V, (if v = a ∧ w = b then e else 0) = e := by
  simp [ite_and, ha, hb]

/-- Over all ordered pairs of variables a term counts twice: in both orders, or not halved. -/
theorem sum_joins {V : Finset VariableIndex} (hfirst : t.first ∈ V) (hsecond : t.second ∈ V) :
    ∑ v ∈ V, ∑ w ∈ V, (if t.Joins v w then t.coefficient else 0) * x v * x w = 2 * t.value x := by
  obtain ⟨c, a, b⟩ := t
  -- A square joins one ordered pair and is halved, any other product joins two.
  by_cases hab : a = b
  · subst hab
    have hpair (v w : VariableIndex) : (if Joins ⟨c, a, a⟩ v w then c else 0) * x v * x w =
        if v = a ∧ w = a then c * x a * x a else 0 := by
      by_cases h : v = a ∧ w = a
      · obtain ⟨rfl, rfl⟩ := h
        simp [Joins]
      · have hjoins : ¬Joins ⟨c, a, a⟩ v w := by
          rintro (⟨rfl, rfl⟩ | ⟨rfl, rfl⟩)
          · exact h ⟨rfl, rfl⟩
          · exact h ⟨rfl, rfl⟩
        rw [if_neg hjoins, if_neg h, zero_mul, zero_mul]
    simp only [hpair, sum_pair hfirst hsecond, value, if_true]
    ring
  · have hpair (v w : VariableIndex) : (if Joins ⟨c, a, b⟩ v w then c else 0) * x v * x w =
        (if v = a ∧ w = b then c * x a * x b else 0) +
          if v = b ∧ w = a then c * x a * x b else 0 := by
      grind [Joins]
    simp only [hpair, Finset.sum_add_distrib, sum_pair hfirst hsecond, sum_pair hsecond hfirst,
      value, if_neg hab]
    ring

end QuadraticTerm

/-! ### Scalar functions -/

namespace ScalarQuadratic

/-- The entry of the symmetric matrix: what the terms in the two variables add up to. -/
def entry (f : ScalarQuadratic ℚ) (v w : VariableIndex) : ℚ :=
  ((f.quadratic.filter fun t => t.Joins v w).map (·.coefficient)).sum

theorem entry_comm (f : ScalarQuadratic ℚ) (v w : VariableIndex) : f.entry v w = f.entry w v := by
  simp only [entry, QuadraticTerm.joins_comm]

/-- The function without its quadratic terms. -/
def affinePart {α : Type} (f : ScalarQuadratic α) : ScalarAffine α := ⟨f.affine, f.constant⟩

/-- The value at a point, term by term. -/
def valueAt (f : ScalarQuadratic ℚ) (x : VariableIndex → ℚ) : ℚ :=
  (f.quadratic.map (·.value x)).sum + f.affinePart.linear x + f.constant

variable {f : ScalarQuadratic ℚ} {x : VariableIndex → ℚ} {lookup : Lookup ℚ}

/-- The terms of a function, added up pair by pair. -/
theorem sum_entries {V : Finset VariableIndex}
    (hV : ∀ t ∈ f.quadratic, t.first ∈ V ∧ t.second ∈ V) :
    ∑ v ∈ V, ∑ w ∈ V, f.entry v w * x v * x w = 2 * (f.quadratic.map (·.value x)).sum := by
  obtain ⟨terms, affine, constant⟩ := f
  induction terms with
  | nil => simp [entry]
  | cons t terms ih =>
    rw [List.forall_mem_cons] at hV
    have hentry (v w : VariableIndex) : entry ⟨t :: terms, affine, constant⟩ v w * x v * x w =
        (if t.Joins v w then t.coefficient else 0) * x v * x w +
          entry ⟨terms, affine, constant⟩ v w * x v * x w := by
      by_cases h : t.Joins v w
      · simp [entry, h, add_mul]
      · simp [entry, h]
    simp only [hentry, Finset.sum_add_distrib]
    rw [QuadraticTerm.sum_joins hV.1.1 hV.1.2, ih hV.2, List.map_cons, List.sum_cons, mul_add]

theorem evaluate_eq_valueAt (h : lookup.Gives (.scalarQuadratic f) x) :
    f.evaluate lookup = .ok (f.valueAt x) := by
  have haffine : ∀ t ∈ f.affine, t.evaluate lookup = .ok (t.coefficient * x t.var) := fun t ht =>
    AffineTerm.evaluate_eq_ok (h.of_mem (var_mem_occurrences ht))
  have hquadratic : ∀ t ∈ f.quadratic, t.evaluate lookup = .ok (t.value x) := fun t ht =>
    QuadraticTerm.evaluate_eq_ok (h.of_mem (pair_mem_occurrences ht).1)
      (h.of_mem (pair_mem_occurrences ht).2)
  rw [evaluate, mapM_eq_ok haffine, mapM_eq_ok hquadratic]
  refine congrArg (fun sum => Except.ok (sum + f.constant)) ((pairwiseSum_eq_sum _).trans ?_)
  rw [List.sum_append, add_comm]
  rfl

/-- Sums over all variables that the function has. -/
theorem valueAt_eq_sum_entries {vs : List VariableIndex} (hnodup : vs.Nodup)
    (hvs : ∀ v ∈ (ModelFunction.scalarQuadratic f).occurrences, v ∈ vs) :
    f.valueAt x = 1 / 2 * (vs.map fun v =>
        (vs.map fun w => f.entry v w * x v * x w).sum).sum +
      (vs.map fun v => f.affinePart.slope v * x v).sum + f.constant := by
  have haffine : ∀ t ∈ f.affinePart.terms, t.var ∈ vs := fun t ht =>
    hvs _ (var_mem_occurrences ht)
  have hquadratic : ∀ t ∈ f.quadratic, t.first ∈ vs.toFinset ∧ t.second ∈ vs.toFinset := by
    intro t ht
    rw [List.mem_toFinset, List.mem_toFinset]
    exact ⟨hvs _ (pair_mem_occurrences ht).1, hvs _ (pair_mem_occurrences ht).2⟩
  have hpairs := f.sum_entries (x := x) hquadratic
  simp only [List.sum_toFinset _ hnodup] at hpairs
  rw [hpairs, ← f.affinePart.linear_eq_sum_map x hnodup haffine, valueAt]
  ring

end ScalarQuadratic

/-! ### Vector functions -/

namespace VectorQuadratic

/-- Row `k`, with the terms and the constant of that row. -/
def row {α : Type} [Zero α] (f : VectorQuadratic α) (k : ℕ) : ScalarQuadratic α :=
  ⟨(f.quadratic.filter (·.row = k)).map (·.term), (f.affine.filter (·.row = k)).map (·.term),
    f.constants.getD k 0⟩

variable {f : VectorQuadratic ℚ} {x : VariableIndex → ℚ} {lookup : Lookup ℚ}

theorem gives_row (h : lookup.Gives (.vectorQuadratic f) x) (k : ℕ) :
    lookup.Gives (.scalarQuadratic (f.row k)) x := by
  intro v hv
  refine h.of_mem ?_
  rw [ModelFunction.mem_distinctVariables] at hv
  rcases List.mem_append.mp hv with hv | hv
  · obtain ⟨t, ht, hv⟩ := List.mem_flatMap.mp hv
    obtain ⟨t', ht', rfl⟩ := List.mem_map.mp ht
    exact List.mem_append_left _ (List.mem_flatMap.mpr ⟨t', (List.mem_filter.mp ht').1, hv⟩)
  · obtain ⟨t, ht, rfl⟩ := List.mem_map.mp hv
    obtain ⟨t', ht', rfl⟩ := List.mem_map.mp ht
    exact var_mem_occurrences (List.mem_filter.mp ht').1

/-- The loop over the affine terms and the one over the quadratic terms leave the values of the
rows. -/
theorem evaluate_eq_valueAt (haffine : ∀ t ∈ f.affine, t.row < f.constants.length)
    (hquadratic : ∀ t ∈ f.quadratic, t.row < f.constants.length)
    (h : lookup.Gives (.vectorQuadratic f) x) :
    f.evaluate lookup =
      .ok ((List.range f.constants.length).map fun k => (f.row k).valueAt x) := by
  have haffine' : ∀ t ∈ f.affine, t.term.evaluate lookup =
      .ok (t.term.coefficient * x t.term.var) := fun t ht =>
    AffineTerm.evaluate_eq_ok (h.of_mem (var_mem_occurrences ht))
  have hquadratic' : ∀ t ∈ f.quadratic, t.term.evaluate lookup = .ok (t.term.value x) :=
    fun t ht => QuadraticTerm.evaluate_eq_ok (h.of_mem (pair_mem_occurrences ht).1)
      (h.of_mem (pair_mem_occurrences ht).2)
  rw [evaluate, addRows_eq_ok (fun t => t.coefficient * x t.var) haffine' haffine]
  -- The quadratic terms are added to the rows that the affine ones have left.
  show addRows (·.evaluate lookup) _ f.quadratic = _
  rw [addRows_eq_ok (·.value x) hquadratic' (by simpa using hquadratic)]
  refine congrArg Except.ok (List.ext_getElem (by simp) fun k hk _ => ?_)
  have hlt : k < f.constants.length := by simpa using hk
  rw [List.getElem_mapIdx, List.getElem_mapIdx, List.getElem_map, List.getElem_range,
    ScalarQuadratic.valueAt, ScalarAffine.linear, ScalarQuadratic.affinePart, row, List.map_map,
    List.map_map, List.getD_eq_getElem _ _ hlt]
  simp only [Function.comp_def]
  ring

end VectorQuadratic

/-! ### Values and matrices -/

namespace ModelFunction

/-- A value of a scalar function is half the quadratic form of its symmetric matrix, with the affine
terms and the constant, and the entries of a value of a vector function are the values of its
rows. -/
theorem evaluate_eq_quadraticForm :
    (∀ (f : ScalarQuadratic ℚ) (x : VariableIndex → ℚ) (lookup : Lookup ℚ),
      lookup.Gives (.scalarQuadratic f) x →
      f.evaluate lookup = .ok (1 / 2 * ((scalarQuadratic f).distinctVariables.map fun v =>
          ((scalarQuadratic f).distinctVariables.map fun w => f.entry v w * x v * x w).sum).sum +
        ((scalarQuadratic f).distinctVariables.map fun v => f.affinePart.slope v * x v).sum +
        f.constant)) ∧
    (∀ (f : ScalarQuadratic ℚ) (v w : VariableIndex), f.entry v w = f.entry w v) ∧
    ∀ (f : VectorQuadratic ℚ) (x : VariableIndex → ℚ) (lookup : Lookup ℚ),
      (∀ t ∈ f.affine, t.row < f.constants.length) →
      (∀ t ∈ f.quadratic, t.row < f.constants.length) →
      lookup.Gives (.vectorQuadratic f) x →
      ∃ ys, f.evaluate lookup = .ok ys ∧ ys.length = f.constants.length ∧
        ∀ k (hk : k < ys.length), (f.row k).evaluate lookup = .ok ys[k] := by
  refine ⟨fun f x lookup h => ?_, ScalarQuadratic.entry_comm,
    fun f x lookup haffine hquadratic h => ?_⟩
  · rw [f.evaluate_eq_valueAt h, f.valueAt_eq_sum_entries (nodup_distinctVariables _) fun v hv =>
      (mem_distinctVariables _ v).mpr hv]
  · refine ⟨_, f.evaluate_eq_valueAt haffine hquadratic h, by simp, fun k hk => ?_⟩
    rw [List.getElem_map, List.getElem_range]
    exact ScalarQuadratic.evaluate_eq_valueAt (VectorQuadratic.gives_row h k)

/-- The first row has a square, and a product in both orders. -/
def mixed : VectorQuadratic ℚ :=
  ⟨[⟨0, ⟨3, ⟨0⟩, ⟨1⟩⟩⟩, ⟨1, ⟨1, ⟨0⟩, ⟨0⟩⟩⟩, ⟨0, ⟨4, ⟨0⟩, ⟨0⟩⟩⟩, ⟨0, ⟨2, ⟨1⟩, ⟨0⟩⟩⟩],
    [⟨0, ⟨5, ⟨1⟩⟩⟩, ⟨1, ⟨1, ⟨1⟩⟩⟩], [6, 7]⟩

theorem evaluate_mixed :
    (∀ t ∈ mixed.affine, t.row < mixed.constants.length) ∧
      (∀ t ∈ mixed.quadratic, t.row < mixed.constants.length) ∧
      (Lookup.point fun v => v.number + 2).Gives (.vectorQuadratic mixed) (fun v => v.number + 2) ∧
      (mixed.row 0).entry ⟨0⟩ ⟨0⟩ = 4 ∧ (mixed.row 0).entry ⟨0⟩ ⟨1⟩ = 5 ∧
      (mixed.row 0).entry ⟨1⟩ ⟨0⟩ = 5 ∧
      (mixed.row 0).evaluate (.point fun v => v.number + 2) = .ok 59 ∧
      mixed.evaluate (.point fun v => v.number + 2) = .ok [59, 12] := by
  have haffine : ∀ t ∈ mixed.affine, t.row < mixed.constants.length := by decide
  have hquadratic : ∀ t ∈ mixed.quadratic, t.row < mixed.constants.length := by decide
  have hgives (f : ModelFunction ℚ) : (Lookup.point fun v => v.number + 2).Gives f
      (fun v => v.number + 2) := fun _ _ => rfl
  obtain ⟨hscalar, hcomm, hvector⟩ := evaluate_eq_quadraticForm
  have hentry : (mixed.row 0).entry ⟨0⟩ ⟨1⟩ = 5 := by decide +kernel
  have hfirst : (mixed.row 0).evaluate (.point fun v => v.number + 2) = .ok 59 :=
    (hscalar _ _ _ (hgives _)).trans (by decide +kernel)
  have hsecond : (mixed.row 1).evaluate (.point fun v => v.number + 2) = .ok 12 :=
    (hscalar _ _ _ (hgives _)).trans (by decide +kernel)
  obtain ⟨ys, hys, hlength, hrow⟩ := hvector mixed _ _ haffine hquadratic (hgives _)
  obtain ⟨a, b, rfl⟩ := List.length_eq_two.mp hlength
  have ha : a = 59 := Except.ok.inj ((hrow 0 (by simp)).symm.trans hfirst)
  have hb : b = 12 := Except.ok.inj ((hrow 1 (by simp)).symm.trans hsecond)
  exact ⟨haffine, hquadratic, hgives _, by decide +kernel, hentry, (hcomm _ _ _).trans hentry,
    hfirst, by rw [hys, ha, hb]⟩

end ModelFunction

end DualRecovery
