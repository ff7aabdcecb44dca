import DualRecovery.Proofs.Recovery.Adjoint

/-! Values of functions at a point, and their products with duals. The adjoint of a constraint is
the transpose of its linear part: added up over the variables of a point, each with its entry, it
gives the product of the dual with the value of the function less its constant. -/

namespace DualRecovery

/-! ### Values at a point -/

/-- The value at `x` of a function of `n` variables that is not quadratic. -/
def ModelFunction.valueAt (f : ModelFunction ℚ) (n : ℕ) (x : VariableIndex → ℚ) : Value ℚ :=
  match f with
  | .singleVariable v => .scalar (x v)
  | .vectorOfVariables vs => .vector (vs.map x)
  | .scalarAffine f => .scalar (∑ k ∈ Finset.range n, f.slope ⟨k⟩ * x ⟨k⟩ + f.constant)
  | .vectorAffine f =>
    .vector (f.constants.mapIdx fun i constant =>
      constant + ∑ k ∈ Finset.range n, (f.row i).slope ⟨k⟩ * x ⟨k⟩)
  | .scalarQuadratic _ | .vectorQuadratic _ => .scalar 0

/-- The constant of a function with a gradient. -/
def ModelFunction.shift : ModelFunction ℚ → ℚ
  | .scalarAffine f => f.constant
  | _ => 0

variable {n : ℕ} {x : VariableIndex → ℚ} {lookup : Lookup ℚ}

theorem ModelFunction.valueAt_eq_scalar {f : ModelFunction ℚ} (hf : f.Fits n)
    (hkind : f.kind = .singleVariable ∨ f.kind = .scalarAffine) :
    f.valueAt n x = .scalar (∑ k ∈ Finset.range n, f.slope ⟨k⟩ * x ⟨k⟩ + f.shift) := by
  cases f with
  | singleVariable w =>
    have hw : w.number < n := hf.occurrences w (List.mem_singleton_self w)
    refine congrArg Value.scalar ?_
    rw [Finset.sum_eq_single_of_mem w.number (Finset.mem_range.mpr hw)]
    · rw [slope, if_pos rfl, one_mul]
      exact (add_zero _).symm
    · intro k _ hk
      rw [slope, if_neg fun h => hk (congrArg VariableIndex.number h).symm, zero_mul]
  | scalarAffine f => rfl
  | _ => simp [kind] at hkind

theorem ModelFunction.evaluate_eq_ok {f : ModelFunction ℚ} (hf : f.Fits n)
    (hkind : f.kind.isQuadratic = false)
    (hlookup : ∀ v, v.number < n → lookup v = .ok (x v)) :
    f.evaluate lookup = .ok (f.valueAt n x) := by
  cases f with
  | singleVariable v =>
    rw [evaluate, hlookup v (hf.occurrences v (List.mem_singleton_self v))]
    rfl
  | vectorOfVariables vs =>
    have hvs : ∀ v ∈ vs, v.number < n := hf.occurrences
    rw [evaluate, mapM_eq_ok fun v hv => hlookup v (hvs v hv)]
    rfl
  | scalarAffine f =>
    have hn : ∀ t ∈ f.terms, t.var.number < n := fun t ht =>
      hf.occurrences _ (List.mem_map_of_mem ht)
    rw [evaluate, f.evaluate_eq_ok hlookup hn]
    rfl
  | vectorAffine f =>
    have hn : ∀ t ∈ f.terms, t.term.var.number < n := fun t ht =>
      hf.occurrences _ (List.mem_map_of_mem ht)
    have hrow : ∀ t ∈ f.terms, t.row < f.constants.length := fun t ht =>
      hf.rows _ (List.mem_map_of_mem ht)
    rw [evaluate, f.evaluate_eq_ok hlookup hn hrow]
    rfl
  | scalarQuadratic f | vectorQuadratic f => cases hkind

/-! ### Products of values -/

namespace ConstraintSet

variable {s : ConstraintSet ℚ}

/-- The product of two values of one shape. -/
def pair (s : ConstraintSet ℚ) : Value ℚ → Value ℚ → ℚ
  | .scalar x, .scalar y => x * y
  | .vector x, .vector y => s.pairing x y
  | _, _ => 0

theorem pairing_zero {y : List ℚ} (hy : y.length = s.dimension) :
    s.pairing (List.replicate s.dimension 0) y = 0 := by
  rw [pairing_eq_sum List.length_replicate hy]
  refine Finset.sum_eq_zero fun k hk => ?_
  rw [List.getD_replicate 0 (Finset.mem_range.mp hk), zero_mul, mul_zero]

end ConstraintSet

namespace Constraint

theorem admits_valueAt {c : Constraint ℚ} (hc : c.Fits n)
    (hkind : c.function.kind.isQuadratic = false) (x : VariableIndex → ℚ) :
    c.admits (c.function.valueAt n x) = true := by
  obtain ⟨f, set⟩ := c
  cases f with
  | singleVariable v | scalarAffine f => rfl
  | vectorOfVariables vs =>
    exact (admits_iff_vector rfl).mpr ⟨_, rfl, (List.length_map _).trans hc.dimension⟩
  | vectorAffine f =>
    exact (admits_iff_vector rfl).mpr ⟨_, rfl, List.length_mapIdx.trans hc.dimension⟩
  | scalarQuadratic f | vectorQuadratic f => cases hkind

/-! ### The transpose -/

theorem sum_adjoint_singleVariable {w : VariableIndex} (hw : w.number < n) (set : ConstraintSet ℚ)
    (a : ℚ) :
    ∑ k ∈ Finset.range n, adjoint ⟨.singleVariable w, set⟩ (.scalar a) ⟨k⟩ * x ⟨k⟩ = x w * a := by
  rw [Finset.sum_eq_single_of_mem w.number (Finset.mem_range.mpr hw)]
  · exact (congrArg (· * x w) (if_pos rfl)).trans (mul_comm a (x w))
  · intro k _ hk
    have hne : w ≠ ⟨k⟩ := fun h => hk (congrArg VariableIndex.number h).symm
    exact (congrArg (· * x ⟨k⟩) (if_neg hne)).trans (zero_mul _)

theorem sum_adjoint_vectorOfVariables {vs : List VariableIndex} (hn : ∀ v ∈ vs, v.number < n)
    {set : ConstraintSet ℚ} (hvs : vs.length = set.dimension) {ys : List ℚ}
    (hys : ys.length = set.dimension) :
    ∑ k ∈ Finset.range n, adjoint ⟨.vectorOfVariables vs, set⟩ (.vector ys) ⟨k⟩ * x ⟨k⟩ =
      set.pairing (vs.map x) ys := by
  -- A position meets the entries of the point at just one of them, that of its variable.
  have hposition : ∀ p ∈ Finset.range set.dimension,
      (∑ k ∈ Finset.range n, if vs[p]? = some ⟨k⟩ then
        set.innerProduct.weight p * ys.getD p 0 * x ⟨k⟩ else 0) =
        set.innerProduct.weight p * ((vs.map x).getD p 0 * ys.getD p 0) := by
    intro p hp
    have hp : p < vs.length := hvs ▸ Finset.mem_range.mp hp
    have hget : vs[p]? = some vs[p] := List.getElem?_eq_getElem hp
    have hvalue : (vs.map x).getD p 0 = x vs[p] := by
      rw [List.getD_eq_getElem _ _ (by simpa using hp), List.getElem_map]
    rw [Finset.sum_eq_single_of_mem vs[p].number
      (Finset.mem_range.mpr (hn _ (List.getElem_mem hp)))]
    · rw [if_pos hget, hvalue]
      ring
    · intro k _ hk
      refine if_neg fun h => hk ?_
      rw [hget] at h
      exact (congrArg VariableIndex.number (Option.some.inj h)).symm
  calc ∑ k ∈ Finset.range n, adjoint ⟨.vectorOfVariables vs, set⟩ (.vector ys) ⟨k⟩ * x ⟨k⟩
      = ∑ k ∈ Finset.range n, ∑ p ∈ Finset.range set.dimension, if vs[p]? = some ⟨k⟩ then
          set.innerProduct.weight p * ys.getD p 0 * x ⟨k⟩ else 0 := by
        refine Finset.sum_congr rfl fun k _ => ?_
        rw [adjoint_vectorOfVariables hvs hys, Finset.sum_mul, Finset.sum_filter]
    _ = ∑ p ∈ Finset.range set.dimension, ∑ k ∈ Finset.range n, if vs[p]? = some ⟨k⟩ then
          set.innerProduct.weight p * ys.getD p 0 * x ⟨k⟩ else 0 := Finset.sum_comm
    _ = ∑ p ∈ Finset.range set.dimension,
          set.innerProduct.weight p * ((vs.map x).getD p 0 * ys.getD p 0) :=
        Finset.sum_congr rfl hposition
    _ = set.pairing (vs.map x) ys := by
        rw [ConstraintSet.pairing_eq_sum (by simpa using hvs) hys]

theorem sum_adjoint_scalarAffine (f : ScalarAffine ℚ) (set : ConstraintSet ℚ) (a : ℚ) :
    ∑ k ∈ Finset.range n, adjoint ⟨.scalarAffine f, set⟩ (.scalar a) ⟨k⟩ * x ⟨k⟩ =
      (∑ k ∈ Finset.range n, f.slope ⟨k⟩ * x ⟨k⟩ + f.constant) * a - f.constant * a := by
  rw [add_mul, add_sub_cancel_right, Finset.sum_mul]
  refine Finset.sum_congr rfl fun k _ => ?_
  show f.slope ⟨k⟩ * a * x ⟨k⟩ = f.slope ⟨k⟩ * x ⟨k⟩ * a
  ring

theorem sum_adjoint_vectorAffine {f : VectorAffine ℚ} {set : ConstraintSet ℚ}
    (hf : f.constants.length = set.dimension) {ys : List ℚ} (hys : ys.length = set.dimension) :
    ∑ k ∈ Finset.range n, adjoint ⟨.vectorAffine f, set⟩ (.vector ys) ⟨k⟩ * x ⟨k⟩ =
      set.pairing (f.constants.mapIdx fun i constant =>
        constant + ∑ k ∈ Finset.range n, (f.row i).slope ⟨k⟩ * x ⟨k⟩) ys -
      set.pairing f.constants ys := by
  have hrow : ∀ i ∈ Finset.range set.dimension,
      (∑ k ∈ Finset.range n,
        set.innerProduct.weight i * ((f.row i).slope ⟨k⟩ * ys.getD i 0) * x ⟨k⟩) =
        set.innerProduct.weight i * ((f.constants.mapIdx fun i constant =>
          constant + ∑ k ∈ Finset.range n, (f.row i).slope ⟨k⟩ * x ⟨k⟩).getD i 0 * ys.getD i 0) -
        set.innerProduct.weight i * (f.constants.getD i 0 * ys.getD i 0) := by
    intro i hi
    have hi : i < f.constants.length := hf ▸ Finset.mem_range.mp hi
    have hsum : (∑ k ∈ Finset.range n,
        set.innerProduct.weight i * ((f.row i).slope ⟨k⟩ * ys.getD i 0) * x ⟨k⟩) =
        set.innerProduct.weight i * ys.getD i 0 *
          ∑ k ∈ Finset.range n, (f.row i).slope ⟨k⟩ * x ⟨k⟩ := by
      rw [Finset.mul_sum]
      exact Finset.sum_congr rfl fun k _ => by ring
    have hvalue : (f.constants.mapIdx fun i constant =>
        constant + ∑ k ∈ Finset.range n, (f.row i).slope ⟨k⟩ * x ⟨k⟩).getD i 0 =
        f.constants.getD i 0 + ∑ k ∈ Finset.range n, (f.row i).slope ⟨k⟩ * x ⟨k⟩ := by
      rw [List.getD_eq_getElem _ _ (by simpa using hi), List.getElem_mapIdx,
        List.getD_eq_getElem _ _ hi]
    rw [hsum, hvalue]
    ring
  calc ∑ k ∈ Finset.range n, adjoint ⟨.vectorAffine f, set⟩ (.vector ys) ⟨k⟩ * x ⟨k⟩
      = ∑ k ∈ Finset.range n, ∑ i ∈ Finset.range set.dimension,
          set.innerProduct.weight i * ((f.row i).slope ⟨k⟩ * ys.getD i 0) * x ⟨k⟩ := by
        refine Finset.sum_congr rfl fun k _ => ?_
        show set.pairing (f.column ⟨k⟩) ys * x ⟨k⟩ = _
        rw [ConstraintSet.pairing_eq_sum ((f.length_column _).trans hf) hys, Finset.sum_mul]
        refine Finset.sum_congr rfl fun i hi => ?_
        rw [f.getD_column (hf ▸ Finset.mem_range.mp hi)]
    _ = ∑ i ∈ Finset.range set.dimension, ∑ k ∈ Finset.range n,
          set.innerProduct.weight i * ((f.row i).slope ⟨k⟩ * ys.getD i 0) * x ⟨k⟩ :=
        Finset.sum_comm
    _ = _ := by
        rw [Finset.sum_congr rfl hrow, Finset.sum_sub_distrib,
          ConstraintSet.pairing_eq_sum (by simpa using hf) hys,
          ConstraintSet.pairing_eq_sum hf hys]

/-- The adjoint is the transpose of the linear part of the constraint. -/
theorem sum_adjoint {c : Constraint ℚ} (hc : c.Fits n)
    (hkind : c.function.kind.isQuadratic = false) {y : Value ℚ} (hy : c.admits y = true)
    (x : VariableIndex → ℚ) :
    ∑ k ∈ Finset.range n, c.adjoint y ⟨k⟩ * x ⟨k⟩ =
      c.set.pair (c.function.valueAt n x) y - c.set.pair c.function.constant y := by
  obtain ⟨f, set⟩ := c
  cases f with
  | singleVariable w =>
    obtain ⟨a, rfl⟩ := (admits_iff_scalar rfl).mp hy
    have hw : w.number < n := hc.function.occurrences w (List.mem_singleton_self w)
    rw [sum_adjoint_singleVariable hw]
    show x w * a = x w * a - 0 * a
    rw [zero_mul, sub_zero]
  | vectorOfVariables vs =>
    obtain ⟨ys, rfl, hys⟩ := (admits_iff_vector rfl).mp hy
    have hvs : vs.length = set.dimension := hc.dimension
    have hn : ∀ v ∈ vs, v.number < n := hc.function.occurrences
    rw [sum_adjoint_vectorOfVariables hn hvs hys]
    show set.pairing (vs.map x) ys =
      set.pairing (vs.map x) ys - set.pairing (List.replicate vs.length 0) ys
    rw [hvs, ConstraintSet.pairing_zero hys, sub_zero]
  | scalarAffine f =>
    obtain ⟨a, rfl⟩ := (admits_iff_scalar rfl).mp hy
    exact sum_adjoint_scalarAffine f set a
  | vectorAffine f =>
    obtain ⟨ys, rfl, hys⟩ := (admits_iff_vector rfl).mp hy
    exact sum_adjoint_vectorAffine hc.dimension hys
  | scalarQuadratic f | vectorQuadratic f => cases hkind

end Constraint

end DualRecovery
