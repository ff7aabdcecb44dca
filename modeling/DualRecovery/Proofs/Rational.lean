import Mathlib
import DualRecovery.Proofs.Comparison

/-! Exact scalars: the rational numbers as scalars, and what the operations of the library are on
them. Sums by halves are sums, a dot product is the sum of the products of the entries, and the
infinity norm is a bound of the magnitudes. -/

namespace DualRecovery

open Scalar

/-- The rational numbers with their own operations. -/
instance : Scalar ℚ where
  toZero := inferInstance
  toOne := inferInstance
  toAdd := inferInstance
  toSub := inferInstance
  toMul := inferInstance
  toDiv := inferInstance
  toNeg := inferInstance
  toBEq := inferInstance
  toLE := inferInstance
  toLT := inferInstance
  decidableLE := inferInstance
  decidableLT := inferInstance

namespace Scalar

theorem two_rat : (two : ℚ) = 2 := by
  unfold two
  norm_num

theorem half_rat : (half : ℚ) = 1 / 2 := by
  rw [half, two_rat]

theorem isNaN_rat (x : ℚ) : isNaN x = false := by
  simp [isNaN]

theorem magnitude_rat (x : ℚ) : magnitude x = |x| := by
  unfold magnitude
  split
  · next h => exact (abs_of_neg h).symm
  · next h => exact (abs_of_nonneg (not_lt.mp h)).symm

end Scalar

instance : OrderedScalar ℚ where
  le_trans := le_trans
  le_of_lt := le_of_lt
  le_of_not_lt _ _ := not_lt.mp
  isNaN_of_le _ := ⟨isNaN_rat _, isNaN_rat _⟩

/-! ### Sums -/

theorem foldl_add_eq_add_sum {M : Type} [AddMonoid M] (a : M) (xs : List M) :
    xs.foldl (· + ·) a = a + xs.sum := by
  induction xs generalizing a with
  | nil => simp
  | cons x xs ih => rw [List.foldl_cons, ih, List.sum_cons, add_assoc]

theorem foldl_sub_eq_sub_sum (a : ℚ) (xs : List ℚ) : xs.foldl (· - ·) a = a - xs.sum := by
  induction xs generalizing a with
  | nil => simp
  | cons x xs ih => rw [List.foldl_cons, ih, List.sum_cons, sub_sub]

theorem sum_sum_map_mul {κ : Type} (ks : List κ) (s : Finset ℕ) (f : κ → ℕ → ℚ) (x : ℕ → ℚ) :
    ∑ i ∈ s, (ks.map fun k => f k i).sum * x i = (ks.map fun k => ∑ i ∈ s, f k i * x i).sum := by
  induction ks with
  | nil => simp
  | cons k ks ih => simp only [List.map_cons, List.sum_cons, add_mul, Finset.sum_add_distrib, ih]

theorem sum_map_ite_zero {κ : Type} (P : κ → Prop) [DecidablePred P] (f : κ → ℚ) (ks : List κ) :
    (ks.map fun k => if P k then f k else 0).sum = ((ks.filter P).map f).sum := by
  rw [List.sum_map_ite, List.map_const', List.sum_replicate, smul_zero, add_zero]

/-- Two sums differ by no more than their summands do. -/
theorem abs_sum_sub_sum_le {κ : Type} {f g bound : κ → ℚ} {ks : List κ}
    (h : ∀ k ∈ ks, |f k - g k| ≤ bound k) :
    |(ks.map f).sum - (ks.map g).sum| ≤ (ks.map bound).sum := by
  induction ks with
  | nil => simp
  | cons k ks ih =>
    rw [List.forall_mem_cons] at h
    simp only [List.map_cons, List.sum_cons]
    rw [add_sub_add_comm]
    exact (abs_add_le _ _).trans (add_le_add h.1 (ih h.2))

theorem sum_map_single {κ : Type} [DecidableEq κ] {ks : List κ} (hnodup : ks.Nodup) {k : κ}
    (hk : k ∈ ks) (x : ℚ) : (ks.map fun k' => if k' = k then x else 0).sum = x := by
  rw [List.sum_map_ite_eq, List.count_eq_one_of_mem hnodup hk]
  simp

/-- In a monoid it does not matter where a sum is cut. -/
theorem pairwiseSum_eq_sum {M : Type} [AddMonoid M] (xs : List M) : pairwiseSum xs = xs.sum := by
  fun_induction pairwiseSum xs with
  | case1 xs h => rw [foldl_add_eq_add_sum, zero_add]
  | case2 xs h ih1 ih2 => rw [ih1, ih2, List.sum_take_add_sum_drop]

/-- The sum of the entrywise products by positions, which a shorter list leaves empty. -/
theorem sum_zipWith_mul (x y : List ℚ) {n : ℕ} (hx : x.length ≤ n) :
    (List.zipWith (· * ·) x y).sum = ∑ k ∈ Finset.range n, x.getD k 0 * y.getD k 0 := by
  induction x generalizing y n with
  | nil => simp
  | cons a x ih =>
    obtain ⟨n, rfl⟩ : ∃ m, n = m + 1 := ⟨n - 1, by simp at hx; omega⟩
    cases y with
    | nil => simp
    | cons b y =>
      rw [List.zipWith_cons_cons, List.sum_cons, Finset.sum_range_succ',
        ih y (n := n) (by simpa using hx)]
      simp [add_comm]

theorem dotEntries_rat (x y : List ℚ) {n : ℕ} (hx : x.length ≤ n) :
    dotEntries x y = ∑ k ∈ Finset.range n, x.getD k 0 * y.getD k 0 := by
  rw [← sum_zipWith_mul x y hx]
  exact pairwiseSum_eq_sum _

/-! ### The infinity norm -/

theorem largestMagnitude_le_iff {t : ℚ} (ht : 0 ≤ t) (xs : List ℚ) :
    largestMagnitude xs ≤ t ↔ ∀ x ∈ xs, |x| ≤ t := by
  simpa only [magnitude_rat] using largestMagnitude_le_iff_forall ht xs

end DualRecovery
