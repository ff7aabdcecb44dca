import DualRecovery.Proofs.InnerProduct

/-! Packed triangles as symmetric matrices. The product of two packed triangles is the sum of the
products of all entries of the two matrices, which is the trace of the product of the matrices. So
the product of the space of every set is a symmetric, positive definite bilinear form. -/

namespace DualRecovery

/-! ### Sums over triangles -/

/-- A packed triangle row by row. -/
theorem sum_range_triangularNumber (f : ℕ → ℚ) (side : ℕ) :
    ∑ k ∈ Finset.range (triangularNumber side), f k =
      ∑ i ∈ Finset.range side, (∑ j ∈ Finset.range i, f (triangularNumber i + j) +
        f (triangularNumber i + i)) := by
  induction side with
  | zero => rfl
  | succ side ih =>
    rw [triangularNumber_succ, Finset.sum_range_add, ih, Finset.sum_range_succ _ side,
      Finset.sum_range_succ _ side]

/-- A sum over a square that is symmetric counts what is below the diagonal twice. -/
theorem sum_square_of_symm {M : ℕ → ℕ → ℚ} (hM : ∀ i j, M i j = M j i) (side : ℕ) :
    ∑ i ∈ Finset.range side, ∑ j ∈ Finset.range side, M i j =
      ∑ i ∈ Finset.range side, (2 * ∑ j ∈ Finset.range i, M i j + M i i) := by
  induction side with
  | zero => rfl
  | succ side ih =>
    have hcolumn : ∑ i ∈ Finset.range side, M i side = ∑ j ∈ Finset.range side, M side j :=
      Finset.sum_congr rfl fun i _ => hM i side
    have hborder : ∑ i ∈ Finset.range side, ∑ j ∈ Finset.range (side + 1), M i j =
        ∑ i ∈ Finset.range side, ∑ j ∈ Finset.range side, M i j +
          ∑ j ∈ Finset.range side, M side j := by
      rw [← hcolumn, ← Finset.sum_add_distrib]
      exact Finset.sum_congr rfl fun i _ => Finset.sum_range_succ _ _
    rw [Finset.sum_range_succ _ side, hborder, ih, Finset.sum_range_succ _ side,
      Finset.sum_range_succ _ side]
    ring

/-! ### Matrices -/

/-- The entry in row `i` and column `j` of the symmetric matrix whose lower triangle stands in `x`,
row by row, from position `offset` on. -/
def packedEntry (offset : ℕ) (x : List ℚ) (i j : ℕ) : ℚ :=
  if j ≤ i then x.getD (offset + i * (i + 1) / 2 + j) 0
  else x.getD (offset + j * (j + 1) / 2 + i) 0

theorem packedEntry_of_le {offset : ℕ} {x : List ℚ} {i j : ℕ} (h : j ≤ i) :
    packedEntry offset x i j = x.getD (offset + triangularNumber i + j) 0 := if_pos h

theorem packedEntry_comm (offset : ℕ) (x : List ℚ) (i j : ℕ) :
    packedEntry offset x i j = packedEntry offset x j i := by
  rcases Nat.lt_trichotomy i j with h | rfl | h
  · rw [packedEntry, packedEntry, if_neg (by omega), if_pos h.le]
  · rfl
  · rw [packedEntry, packedEntry, if_pos h.le, if_neg (by omega)]

/-- The symmetric matrix that is packed in `x` from position `offset` on. -/
def packedMatrix (side offset : ℕ) (x : List ℚ) : Matrix (Fin side) (Fin side) ℚ :=
  .of fun i j => packedEntry offset x i j

theorem isSymm_packedMatrix (side offset : ℕ) (x : List ℚ) :
    (packedMatrix side offset x).IsSymm :=
  Matrix.IsSymm.ext fun i j => packedEntry_comm offset x j i

/-- The product of two symmetric matrices, entry by entry. -/
def matrixProduct (side offset : ℕ) (x y : List ℚ) : ℚ :=
  ∑ i, ∑ j, packedMatrix side offset x i j * packedMatrix side offset y i j

theorem matrixProduct_eq_trace (side offset : ℕ) (x y : List ℚ) :
    matrixProduct side offset x y =
      (packedMatrix side offset x * packedMatrix side offset y).trace := by
  rw [matrixProduct, Matrix.trace]
  refine Finset.sum_congr rfl fun i _ => ?_
  rw [Matrix.diag_apply, Matrix.mul_apply]
  exact Finset.sum_congr rfl fun j _ => by rw [(isSymm_packedMatrix side offset y).apply]

namespace InnerProduct

variable {side offset : ℕ}

/-- Below the diagonal every entry of a packed triangle stands for two entries of the matrix. -/
theorem sum_weight_triangle (x y : List ℚ) :
    ∑ k ∈ Finset.range (triangularNumber side), (triangle side offset).weight (offset + k) *
        (x.getD (offset + k) 0 * y.getD (offset + k) 0) =
      matrixProduct side offset x y := by
  have hrow : ∀ i ∈ Finset.range side,
      ∑ j ∈ Finset.range i, (triangle side offset).weight (offset + (triangularNumber i + j)) *
          (x.getD (offset + (triangularNumber i + j)) 0 *
            y.getD (offset + (triangularNumber i + j)) 0) +
        (triangle side offset).weight (offset + (triangularNumber i + i)) *
          (x.getD (offset + (triangularNumber i + i)) 0 *
            y.getD (offset + (triangularNumber i + i)) 0) =
      2 * ∑ j ∈ Finset.range i, packedEntry offset x i j * packedEntry offset y i j +
        packedEntry offset x i i * packedEntry offset y i i := by
    intro i hi
    rw [Finset.mem_range] at hi
    simp only [← Nat.add_assoc]
    rw [weight_diagonal hi, one_mul, packedEntry_of_le le_rfl, packedEntry_of_le le_rfl,
      Finset.mul_sum]
    congr 1
    refine Finset.sum_congr rfl fun j hj => ?_
    rw [Finset.mem_range] at hj
    rw [weight_row hi hj, packedEntry_of_le hj.le, packedEntry_of_le hj.le]
  rw [sum_range_triangularNumber, Finset.sum_congr rfl hrow, matrixProduct, ← sum_square_of_symm
    fun i j => by rw [packedEntry_comm, packedEntry_comm offset y]]
  rw [Finset.sum_range]
  exact Finset.sum_congr rfl fun i _ => Finset.sum_range _

/-- The product of exact vectors with a packed triangle: leading scalars have the ordinary product,
and matrices the product of their entries. -/
theorem dot_triangle_eq_ok {x y : List ℚ} (hx : x.length = offset + triangularNumber side)
    (hy : y.length = offset + triangularNumber side) :
    (triangle side offset).dot x y =
      .ok (∑ k ∈ Finset.range offset, x.getD k 0 * y.getD k 0 + matrixProduct side offset x y) := by
  have hlead : ∀ k ∈ Finset.range offset,
      (triangle side offset).weight k * (x.getD k 0 * y.getD k 0) =
        x.getD k 0 * y.getD k 0 := by
    intro k hk
    rw [weight_lead (Finset.mem_range.mp hk), one_mul]
  have hfits : (triangle side offset).Fits (offset + triangularNumber side) := rfl
  rw [dot_eq_ok hfits hx hy, Finset.sum_range_add, Finset.sum_congr rfl hlead,
    sum_weight_triangle]

/-! ### The bilinear form of a space -/

/-- The bilinear form on vectors of `n` entries that has the weights on its diagonal. -/
def form (p : InnerProduct) (n : ℕ) : LinearMap.BilinForm ℚ (Fin n → ℚ) :=
  Matrix.toBilin' (Matrix.diagonal fun k => p.weight k)

variable {p : InnerProduct} {n : ℕ}

theorem form_apply (u v : Fin n → ℚ) : p.form n u v = ∑ k : Fin n, p.weight k * (u k * v k) := by
  rw [form, Matrix.toBilin'_apply', dotProduct]
  exact Finset.sum_congr rfl fun k _ => by rw [Matrix.mulVec_diagonal]; ring

theorem form_comm (u v : Fin n → ℚ) : p.form n u v = p.form n v u := by
  rw [form_apply, form_apply]
  exact Finset.sum_congr rfl fun k _ => by rw [mul_comm (u k)]

theorem form_self_pos {u : Fin n → ℚ} (hu : u ≠ 0) : 0 < p.form n u u := by
  obtain ⟨k, hk⟩ := Function.ne_iff.mp hu
  rw [form_apply]
  refine Finset.sum_pos' (fun i _ => ?_) ⟨k, Finset.mem_univ k, ?_⟩
  · exact mul_nonneg (p.weight_pos i).le (mul_self_nonneg (u i))
  · exact mul_pos (p.weight_pos k) (mul_self_pos.mpr hk)

theorem dot_ofFn (hp : p.Fits n) (u v : Fin n → ℚ) :
    p.dot (List.ofFn u) (List.ofFn v) = .ok (p.form n u v) := by
  rw [dot_eq_ok hp List.length_ofFn List.length_ofFn, form_apply, Finset.sum_range]
  simp

end InnerProduct

namespace ConstraintSet

theorem innerProduct_eq_euclidean {s : ConstraintSet ℚ}
    (hs : s.tag ∉ [.psdTriangleCone, .rootDetTriangleCone, .logDetTriangleCone]) :
    s.innerProduct = .euclidean := by
  cases s with
  | psdTriangleCone _ | rootDetTriangleCone _ | logDetTriangleCone _ => simp [tag] at hs
  | _ => rfl

/-- The product of vectors with a packed triangle is that of the leading scalars and that of the
matrices. So the products of the triangle cones, with no, one and two leading scalars, are
symmetric, positive definite bilinear forms. Every other set has the ordinary product. -/
theorem dot_eq_matrixProduct :
    (∀ (side offset : ℕ) (x y : List ℚ), x.length = offset + side * (side + 1) / 2 →
      y.length = offset + side * (side + 1) / 2 →
      (InnerProduct.triangle side offset).dot x y =
        .ok (∑ k ∈ Finset.range offset, x.getD k 0 * y.getD k 0 +
          matrixProduct side offset x y) ∧
      matrixProduct side offset x y =
        (packedMatrix side offset x * packedMatrix side offset y).trace) ∧
    (∀ (side : ℕ) (s : ConstraintSet ℚ) (offset : ℕ),
      (s, offset) ∈ [(psdTriangleCone side, 0), (rootDetTriangleCone side, 1),
        (logDetTriangleCone side, 2)] →
      s.innerProduct = .triangle side offset ∧ s.dimension = offset + side * (side + 1) / 2 ∧
      ∃ B : LinearMap.BilinForm ℚ (Fin s.dimension → ℚ),
        (∀ u v, s.innerProduct.dot (List.ofFn u) (List.ofFn v) = .ok (B u v)) ∧
        (∀ u v, B u v = B v u) ∧ ∀ u ≠ 0, 0 < B u u) ∧
    ∀ s : ConstraintSet ℚ,
      s.tag ∉ [.psdTriangleCone, .rootDetTriangleCone, .logDetTriangleCone] →
      ∀ x y : List ℚ, x.length = y.length →
        s.innerProduct.dot x y = .ok (∑ k ∈ Finset.range x.length, x.getD k 0 * y.getD k 0) := by
  refine ⟨fun side offset x y hx hy => ?_, fun side s offset hs => ?_, fun s hs x y hlen => ?_⟩
  · exact ⟨InnerProduct.dot_triangle_eq_ok hx hy, matrixProduct_eq_trace side offset x y⟩
  · have hspace : s.innerProduct = .triangle side offset ∧
        s.dimension = offset + side * (side + 1) / 2 := by
      simp only [List.mem_cons, Prod.mk.injEq, List.not_mem_nil, or_false] at hs
      rcases hs with ⟨rfl, rfl⟩ | ⟨rfl, rfl⟩ | ⟨rfl, rfl⟩
      · exact ⟨rfl, (Nat.zero_add _).symm⟩
      · exact ⟨rfl, rfl⟩
      · exact ⟨rfl, rfl⟩
    exact ⟨hspace.1, hspace.2, s.innerProduct.form s.dimension,
      InnerProduct.dot_ofFn s.fits_dimension, InnerProduct.form_comm,
      fun u => InnerProduct.form_self_pos⟩
  · rw [innerProduct_eq_euclidean hs, ← dotEntries_rat x y le_rfl]
    exact ofSameLength_of_eq hlen _

/-- The products `2 * 3 + 1 * 5 + 2 * 4 * 1 + 3 * 2` and `1 * 3 + 2 * 4`. -/
theorem dot_rootDetTriangleCone_and_nonnegativeCone :
    (rootDetTriangleCone 2 : ConstraintSet ℚ).dimension = 1 + 2 * (2 + 1) / 2 ∧
      (rootDetTriangleCone 2 : ConstraintSet ℚ).innerProduct.dot
        ([2, 1, 4, 3] : List ℚ) [3, 5, 1, 2] = .ok 25 ∧
      (nonnegativeCone 2 : ConstraintSet ℚ).tag ∉
        [.psdTriangleCone, .rootDetTriangleCone, .logDetTriangleCone] ∧
      (nonnegativeCone 2 : ConstraintSet ℚ).innerProduct.dot ([1, 2] : List ℚ) [3, 4] =
        .ok 11 := by
  obtain ⟨htriangle, hcones, hother⟩ := dot_eq_matrixProduct
  obtain ⟨hproduct, hdimension, -⟩ := hcones 2 (rootDetTriangleCone 2) 1 (by decide +kernel)
  obtain ⟨hdot, -⟩ := htriangle 2 1 [2, 1, 4, 3] [3, 5, 1, 2] rfl rfl
  have htag : (nonnegativeCone 2 : ConstraintSet ℚ).tag ∉
      [.psdTriangleCone, .rootDetTriangleCone, .logDetTriangleCone] := by decide
  refine ⟨hdimension, ?_, htag, (hother _ htag [1, 2] [3, 4] rfl).trans (congrArg Except.ok ?_)⟩
  · rw [hproduct, hdot]
    decide +kernel
  · decide +kernel

end ConstraintSet

end DualRecovery
