import DualRecovery.InnerProduct
import DualRecovery.Proofs.Rational

/-! Inner products of exact vectors as weighted sums: an entry off the diagonal of a packed triangle
counts twice, every other entry once. The representing vector of a functional has the
coefficients of the functional divided by the weights. -/

namespace DualRecovery

open Scalar

/-! ### Rows of packed triangles -/

theorem triangularNumber_mono {i j : ℕ} (h : i ≤ j) : triangularNumber i ≤ triangularNumber j :=
  Nat.div_le_div_right (Nat.mul_le_mul h (by omega))

theorem triangularNumber_lt_diagonalIndex {i j k : ℕ} (hj : j < i) (hk : i ≤ k) :
    triangularNumber i + j < diagonalIndex k := by
  have := triangularNumber_mono hk
  rw [diagonalIndex_eq]
  omega

theorem diagonalIndex_lt_triangularNumber {i j : ℕ} (h : i < j) :
    diagonalIndex i < triangularNumber j := by
  have := triangularNumber_mono (show i + 1 ≤ j from h)
  rw [triangularNumber_succ] at this
  rw [diagonalIndex_eq]
  omega

theorem exists_row {α : Type} {xs : List α} {i : ℕ} (h : i < xs.length) :
    ∃ row d rest, xs = row ++ d :: rest ∧ row.length = i := by
  refine ⟨xs.take i, xs[i], xs.drop (i + 1), ?_, ?_⟩
  · rw [List.getElem_cons_drop, List.take_append_drop]
  · rw [List.length_take]
    omega

theorem TriangleRow.take_append {α : Type} (count : ℕ) (row : List α) (d : α) (rest : List α) :
    TriangleRow.take (count + 1) row.length (row ++ d :: rest) =
      ⟨row, d⟩ :: TriangleRow.take count (row.length + 1) rest := by
  simp [TriangleRow.take]

theorem halveOffDiagonal_append {α : Type} [Scalar α] (side : ℕ) (row : List α) (d : α)
    (rest : List α) :
    halveOffDiagonal (side + 1) row.length (row ++ d :: rest) =
      (row.map (· * half) ++ d :: ·) <$> halveOffDiagonal side (row.length + 1) rest := by
  simp [halveOffDiagonal]

/-- A triangle that is all there is halved without a fault, whatever the scalars. -/
theorem exists_halveOffDiagonal {α : Type} [Scalar α] (count i : ℕ) (xs : List α)
    (h : triangularNumber (i + count) ≤ triangularNumber i + xs.length) :
    ∃ ys, halveOffDiagonal count i xs = .ok ys ∧ ys.length = xs.length := by
  induction count generalizing i xs with
  | zero => exact ⟨xs, rfl, rfl⟩
  | succ count ih =>
    have hi : i < xs.length := by
      have := triangularNumber_mono (show i + 1 ≤ i + (count + 1) by omega)
      rw [triangularNumber_succ] at this
      omega
    obtain ⟨row, d, rest, rfl, rfl⟩ := exists_row hi
    have hside : row.length + (count + 1) = row.length + 1 + count := by omega
    obtain ⟨ys, hys, hlength⟩ := ih (row.length + 1) rest (by
      rw [← hside, triangularNumber_succ]
      simp only [List.length_append, List.length_cons] at h
      omega)
    refine ⟨row.map (· * half) ++ d :: ys, ?_, ?_⟩
    · rw [halveOffDiagonal_append, hys]
      rfl
    · simp [hlength]

/-! ### Weights -/

namespace InnerProduct

/-- Vectors of `n` entries have the product. The ordinary one takes vectors of any length. -/
def Fits : InnerProduct → ℕ → Prop
  | euclidean, _ => True
  | triangle side offset, n => n = offset + triangularNumber side

theorem exists_dot {α : Type} [Scalar α] {p : InnerProduct} {n : ℕ} (hp : p.Fits n)
    {x y : List α} (hx : x.length = n) (hy : y.length = n) : ∃ d, p.dot x y = .ok d := by
  cases p with
  | euclidean => exact ⟨_, ofSameLength_of_eq (hx.trans hy.symm) _⟩
  | triangle side offset =>
    rw [dot, if_neg (not_not.mpr (hx.trans hy.symm)), if_neg (not_not.mpr (hx.trans hp))]
    exact ⟨_, rfl⟩

theorem exists_represent {α : Type} [Scalar α] {p : InnerProduct} {n : ℕ} (hp : p.Fits n)
    {a : List α} (ha : a.length = n) : ∃ y, p.represent a = .ok y ∧ y.length = n := by
  cases p with
  | euclidean => exact ⟨a, rfl, ha⟩
  | triangle side offset =>
    obtain rfl : n = offset + triangularNumber side := hp
    obtain ⟨ys, hys, hlength⟩ := exists_halveOffDiagonal side 0 (a.drop offset)
      (by rw [List.length_drop, Nat.zero_add, triangularNumber_zero]; omega)
    rw [represent, if_neg (by omega), hys]
    refine ⟨a.take offset ++ ys, rfl, ?_⟩
    rw [List.length_append, hlength, ← List.length_append, List.take_append_drop, ha]

/-- The entry at position `k` is off the diagonal of a packed triangle. -/
def OffDiagonal : InnerProduct → ℕ → Prop
  | euclidean, _ => False
  | triangle side offset, k =>
    offset ≤ k ∧ k < offset + triangularNumber side ∧ ∀ i < side, k ≠ offset + diagonalIndex i

instance (p : InnerProduct) : DecidablePred p.OffDiagonal := fun k =>
  match p with
  | euclidean => inferInstanceAs (Decidable False)
  | triangle side offset =>
    inferInstanceAs (Decidable (offset ≤ k ∧ k < offset + triangularNumber side ∧
      ∀ i < side, k ≠ offset + diagonalIndex i))

/-- How often the entry at position `k` counts. -/
def weight (p : InnerProduct) (k : ℕ) : ℚ := if p.OffDiagonal k then 2 else 1

theorem weight_pos (p : InnerProduct) (k : ℕ) : 0 < p.weight k := by
  unfold weight
  split <;> norm_num

theorem weight_ne_zero (p : InnerProduct) (k : ℕ) : p.weight k ≠ 0 := (p.weight_pos k).ne'

theorem weight_euclidean (k : ℕ) : euclidean.weight k = 1 := if_neg id

variable {side offset : ℕ}

theorem weight_lead {k : ℕ} (h : k < offset) : (triangle side offset).weight k = 1 :=
  if_neg fun hk => absurd hk.1 (by omega)

theorem weight_row {i j : ℕ} (hi : i < side) (hj : j < i) :
    (triangle side offset).weight (offset + triangularNumber i + j) = 2 := by
  have hlt := triangularNumber_lt_diagonalIndex hj le_rfl
  have hend := diagonalIndex_lt_triangularNumber hi
  refine if_pos ⟨by omega, by omega, fun k _ => ?_⟩
  rcases Nat.lt_or_ge k i with hk | hk
  · have := diagonalIndex_lt_triangularNumber hk
    omega
  · have := triangularNumber_lt_diagonalIndex hj hk
    omega

theorem weight_diagonal {i : ℕ} (hi : i < side) :
    (triangle side offset).weight (offset + triangularNumber i + i) = 1 := by
  refine if_neg fun hk => hk.2.2 i hi ?_
  rw [diagonalIndex_eq, Nat.add_assoc]

theorem weight_surplus {k : ℕ} (h : offset + triangularNumber side ≤ k) :
    (triangle side offset).weight k = 1 :=
  if_neg fun hk => absurd hk.2.1 (by omega)

/-! ### The product -/

theorem dot_row {row row' : List ℚ} (h : row.length = row'.length) (d d' : ℚ)
    (hside : row.length < side) (rest rest' : List ℚ) :
    TriangleRow.dot ⟨row, d⟩ ⟨row', d'⟩ =
      ∑ k ∈ Finset.range (row.length + 1),
        (triangle side offset).weight (offset + triangularNumber row.length + k) *
          ((row ++ d :: rest).getD k 0 * (row' ++ d' :: rest').getD k 0) := by
  have hoff : ∀ k ∈ Finset.range row.length,
      (triangle side offset).weight (offset + triangularNumber row.length + k) *
        ((row ++ d :: rest).getD k 0 * (row' ++ d' :: rest').getD k 0) =
      2 * (row.getD k 0 * row'.getD k 0) := by
    intro k hk
    rw [Finset.mem_range] at hk
    rw [weight_row hside hk, List.getD_append _ _ _ _ hk, List.getD_append _ _ _ _ (h ▸ hk)]
  rw [Finset.sum_range_succ, Finset.sum_congr rfl hoff, weight_diagonal hside, ← Finset.mul_sum,
    ← dotEntries_rat row row' le_rfl, ← two_rat]
  simp [TriangleRow.dot, h]

/-- Row by row, the products of two triangles add up to the weighted sum over their entries. -/
theorem sum_dot_rows (offset count i : ℕ) (xs ys : List ℚ) (hlen : xs.length = ys.length)
    (h : triangularNumber i + xs.length = triangularNumber (i + count)) :
    (List.zipWith TriangleRow.dot (TriangleRow.take count i xs)
      (TriangleRow.take count i ys)).sum =
      ∑ k ∈ Finset.range xs.length,
        (triangle (i + count) offset).weight (offset + triangularNumber i + k) *
          (xs.getD k 0 * ys.getD k 0) := by
  induction count generalizing i xs ys with
  | zero =>
    obtain rfl : xs = [] := List.length_eq_zero_iff.mp (by rw [Nat.add_zero] at h; omega)
    rfl
  | succ count ih =>
    have hi : i < xs.length := by
      have := triangularNumber_mono (show i + 1 ≤ i + (count + 1) by omega)
      rw [triangularNumber_succ] at this
      omega
    obtain ⟨row, d, rest, rfl, rfl⟩ := exists_row hi
    obtain ⟨row', d', rest', rfl, hrow⟩ := exists_row (hlen ▸ hi)
    have hrest : rest.length = rest'.length := by
      simp only [List.length_append, List.length_cons] at hlen
      omega
    have hside : row.length + (count + 1) = row.length + 1 + count := by omega
    have hnext : triangularNumber (row.length + 1) + rest.length =
        triangularNumber (row.length + 1 + count) := by
      rw [← hside, ← h, triangularNumber_succ, List.length_append, List.length_cons]
      omega
    have hlength : (row ++ d :: rest).length = row.length + 1 + rest.length := by
      rw [List.length_append, List.length_cons]
      omega
    have hfirst := @dot_row (row.length + 1 + count) offset _ _ hrow.symm d d' (by omega) rest rest'
    rw [TriangleRow.take_append, ← hrow, TriangleRow.take_append, hrow, List.zipWith_cons_cons,
      List.sum_cons, ih _ rest rest' hrest hnext, hside, hlength, hfirst,
      Finset.sum_range_add _ (row.length + 1) rest.length]
    congr 1
    refine Finset.sum_congr rfl fun k _ => ?_
    rw [List.getD_append_right _ _ _ _ (by omega), List.getD_append_right _ _ _ _ (by omega),
      hrow, triangularNumber_succ, show row.length + 1 + k - row.length = k + 1 by omega,
      List.getD_cons_succ, List.getD_cons_succ]
    congr 2
    omega

/-- The product of exact vectors: every entry counts by its weight. -/
theorem dot_eq_ok {p : InnerProduct} {n : ℕ} (hp : p.Fits n) {x y : List ℚ} (hx : x.length = n)
    (hy : y.length = n) :
    p.dot x y = .ok (∑ k ∈ Finset.range n, p.weight k * (x.getD k 0 * y.getD k 0)) := by
  cases p with
  | euclidean =>
    have h := dotEntries_rat x y hx.le
    simp only [weight_euclidean, one_mul]
    rw [← h]
    exact ofSameLength_of_eq (hx.trans hy.symm) _
  | triangle side offset =>
    obtain rfl : n = offset + triangularNumber side := hp
    have hlead : (x.take offset).length = offset := by rw [List.length_take]; omega
    have hlen : (x.drop offset).length = triangularNumber side := by rw [List.length_drop]; omega
    have hlen' : (y.drop offset).length = triangularNumber side := by rw [List.length_drop]; omega
    have hrows := sum_dot_rows offset side 0 (x.drop offset) (y.drop offset)
      (by omega) (by rw [hlen, triangularNumber_zero, Nat.zero_add, Nat.zero_add])
    rw [Nat.zero_add, hlen] at hrows
    rw [dot, if_neg (by omega), if_neg (by omega), Finset.sum_range_add]
    refine congrArg Except.ok ((foldl_add_eq_add_sum _ _).trans ?_)
    refine congrArg₂ (· + ·) ?_ (hrows.trans ?_)
    · rw [dotEntries_rat _ _ hlead.le]
      refine Finset.sum_congr rfl fun k hk => ?_
      rw [Finset.mem_range] at hk
      simp [List.getD_eq_getElem?_getD, weight_lead hk, hk]
    · refine Finset.sum_congr rfl fun k _ => ?_
      simp [List.getD_eq_getElem?_getD, List.getElem?_drop]

/-! ### Representing vectors -/

theorem halveOffDiagonal_eq_ok (offset count i : ℕ) (xs : List ℚ)
    (h : triangularNumber (i + count) ≤ triangularNumber i + xs.length) :
    halveOffDiagonal count i xs = .ok (xs.mapIdx fun k x =>
      x / (triangle (i + count) offset).weight (offset + triangularNumber i + k)) := by
  induction count generalizing i xs with
  | zero =>
    rw [halveOffDiagonal]
    refine congrArg Except.ok (List.ext_getElem (by simp) fun k _ _ => ?_)
    rw [List.getElem_mapIdx, weight_surplus (by rw [Nat.add_zero]; omega), div_one]
  | succ count ih =>
    have hi : i < xs.length := by
      have := triangularNumber_mono (show i + 1 ≤ i + (count + 1) by omega)
      rw [triangularNumber_succ] at this
      omega
    obtain ⟨row, d, rest, rfl, rfl⟩ := exists_row hi
    have hside : row.length + (count + 1) = row.length + 1 + count := by omega
    rw [halveOffDiagonal_append, ih _ rest (by
      rw [← hside, triangularNumber_succ]
      simp only [List.length_append, List.length_cons] at h
      omega)]
    refine congrArg Except.ok ?_
    rw [List.mapIdx_append, List.mapIdx_cons, hside]
    refine congrArg₂ (· ++ ·) ?_ (congrArg₂ List.cons ?_ ?_)
    · refine List.ext_getElem (by simp) fun k hk _ => ?_
      rw [List.length_map] at hk
      rw [List.getElem_map, List.getElem_mapIdx, weight_row (by omega) hk]
      simp only [half_rat]
      ring
    · rw [Nat.zero_add, weight_diagonal (by omega), div_one]
    · congr 1
      funext k x
      rw [triangularNumber_succ]
      congr 2
      omega

/-- The weights of what follows a triangle are one, so that it is kept. -/
theorem represent_triangle_eq_ok {a : List ℚ} (h : offset + triangularNumber side ≤ a.length) :
    (triangle side offset).represent a =
      .ok (a.mapIdx fun k x => x / (triangle side offset).weight k) := by
  have hlead : (a.take offset).length = offset := by rw [List.length_take]; omega
  have hhalve := halveOffDiagonal_eq_ok offset side 0 (a.drop offset)
    (by rw [List.length_drop, Nat.zero_add, triangularNumber_zero]; omega)
  rw [represent, if_neg (by omega), hhalve]
  refine congrArg Except.ok ?_
  conv_rhs => rw [← List.take_append_drop offset a, List.mapIdx_append, hlead]
  refine congrArg₂ (· ++ ·) ?_ ?_
  · refine List.ext_getElem (by simp) fun k hk _ => ?_
    rw [List.getElem_mapIdx, weight_lead (by omega), div_one]
  · congr 1
    funext k x
    rw [triangularNumber_zero, Nat.add_zero, Nat.zero_add, Nat.add_comm]

/-- The representing vector of exact coefficients: each is divided by its weight. -/
theorem represent_eq_ok {p : InnerProduct} {n : ℕ} (hp : p.Fits n) {a : List ℚ}
    (ha : a.length = n) : p.represent a = .ok (a.mapIdx fun k x => x / p.weight k) := by
  cases p with
  | euclidean =>
    refine congrArg Except.ok (List.ext_getElem (by simp) fun k _ _ => ?_)
    rw [List.getElem_mapIdx, weight_euclidean, div_one]
  | triangle side offset => exact represent_triangle_eq_ok (ha.trans hp).ge

end InnerProduct

/-! ### The spaces of sets -/

namespace ConstraintSet

theorem fits_dimension {α : Type} (s : ConstraintSet α) : s.innerProduct.Fits s.dimension := by
  cases s with
  | psdTriangleCone side => exact (Nat.zero_add _).symm
  | rootDetTriangleCone side | logDetTriangleCone side => rfl
  | _ => trivial

/-- The inner product of the space of the set, and zero for lists of other lengths. -/
def pairing (s : ConstraintSet ℚ) (x y : List ℚ) : ℚ := (s.innerProduct.dot x y).toOption.getD 0

variable {s : ConstraintSet ℚ} {x y : List ℚ}

theorem pairing_eq_sum (hx : x.length = s.dimension) (hy : y.length = s.dimension) :
    s.pairing x y = ∑ k ∈ Finset.range s.dimension,
      s.innerProduct.weight k * (x.getD k 0 * y.getD k 0) := by
  rw [pairing, InnerProduct.dot_eq_ok s.fits_dimension hx hy]
  rfl

theorem dot_eq_pairing (hx : x.length = s.dimension) (hy : y.length = s.dimension) :
    s.innerProduct.dot x y = .ok (s.pairing x y) := by
  rw [pairing_eq_sum hx hy, InnerProduct.dot_eq_ok s.fits_dimension hx hy]

/-- The product of the magnitudes of the entries with ones. -/
def mass (s : ConstraintSet ℚ) (y : List ℚ) : ℚ :=
  s.pairing (List.replicate y.length 1) (y.map (|·|))

theorem mass_eq_sum (hy : y.length = s.dimension) :
    s.mass y =
      ∑ k ∈ Finset.range s.dimension, s.innerProduct.weight k * |y.getD k 0| := by
  have hones : (List.replicate y.length (1 : ℚ)).length = s.dimension := by simpa using hy
  have hmagnitudes : (y.map (|·|)).length = s.dimension := by simpa using hy
  rw [mass, pairing_eq_sum hones hmagnitudes]
  refine Finset.sum_congr rfl fun k hk => ?_
  have hk : k < y.length := hy ▸ Finset.mem_range.mp hk
  simp [List.getD_eq_getElem?_getD, hk]

/-- A vector with small entries has a small product. -/
theorem abs_pairing_le (hx : x.length = s.dimension) (hy : y.length = s.dimension) {t : ℚ}
    (h : ∀ a ∈ x, |a| ≤ t) : |s.pairing x y| ≤ t * s.mass y := by
  have hterm : ∀ k ∈ Finset.range s.dimension,
      |s.innerProduct.weight k * (x.getD k 0 * y.getD k 0)| ≤
        t * (s.innerProduct.weight k * |y.getD k 0|) := by
    intro k hk
    have hk : k < x.length := hx ▸ Finset.mem_range.mp hk
    have hentry : |x.getD k 0| ≤ t := by
      rw [List.getD_eq_getElem _ _ hk]
      exact h _ (List.getElem_mem hk)
    rw [abs_mul, abs_mul, abs_of_pos (s.innerProduct.weight_pos k), mul_left_comm]
    exact mul_le_mul_of_nonneg_right hentry
      (mul_nonneg (s.innerProduct.weight_pos k).le (abs_nonneg _))
  calc |s.pairing x y|
      = |∑ k ∈ Finset.range s.dimension,
          s.innerProduct.weight k * (x.getD k 0 * y.getD k 0)| := by rw [pairing_eq_sum hx hy]
    _ ≤ ∑ k ∈ Finset.range s.dimension,
          |s.innerProduct.weight k * (x.getD k 0 * y.getD k 0)| := Finset.abs_sum_le_sum_abs _ _
    _ ≤ ∑ k ∈ Finset.range s.dimension, t * (s.innerProduct.weight k * |y.getD k 0|) :=
        Finset.sum_le_sum hterm
    _ = t * s.mass y := by rw [mass_eq_sum hy, Finset.mul_sum]

end ConstraintSet

/-- The vector of `n` entries that is one at position `p` and zero elsewhere. -/
def unitVector (n p : ℕ) : List ℚ := (List.replicate n 0).set p 1

theorem length_unitVector (n p : ℕ) : (unitVector n p).length = n := by
  rw [unitVector, List.length_set, List.length_replicate]

theorem getD_unitVector {n p : ℕ} (hp : p < n) (k : ℕ) :
    (unitVector n p).getD k 0 = if k = p then 1 else 0 := by
  simp only [unitVector, List.getD_eq_getElem?_getD, List.getElem?_set, List.getElem?_replicate,
    List.length_replicate]
  grind

theorem InnerProduct.sum_weight_unitVector (p : InnerProduct) (y : List ℚ) {n k : ℕ} (hk : k < n) :
    ∑ i ∈ Finset.range n, p.weight i * (y.getD i 0 * (unitVector n k).getD i 0) =
      p.weight k * y.getD k 0 := by
  rw [Finset.sum_eq_single k]
  · rw [getD_unitVector hk, if_pos rfl, mul_one]
  · intro i _ hi
    rw [getD_unitVector hk, if_neg hi, mul_zero, mul_zero]
  · intro h
    exact absurd (Finset.mem_range.mpr hk) h

theorem ConstraintSet.pairing_unitVector {s : ConstraintSet ℚ} {y : List ℚ}
    (hy : y.length = s.dimension) {p : ℕ} (hp : p < s.dimension) :
    s.pairing (unitVector s.dimension p) y = s.innerProduct.weight p * y.getD p 0 := by
  rw [pairing_eq_sum (length_unitVector _ _) hy, ← s.innerProduct.sum_weight_unitVector y hp]
  exact Finset.sum_congr rfl fun k _ => by rw [mul_comm (y.getD k 0)]

end DualRecovery
