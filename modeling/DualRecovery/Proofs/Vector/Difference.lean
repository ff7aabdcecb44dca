import DualRecovery.Proofs.Binary.Arithmetic

/-! The largest difference of two vectors against the infinity norm of their difference. Both are
the largest of the magnitudes if all differences are numbers. If one is not, the norm is no number,
while the largest difference is that of the others. -/

namespace DualRecovery

open Scalar

variable {α : Type} [Scalar α]

/-- `v` is the largest of the magnitudes of numbers, and zero if there are none. -/
structure IsLargestMagnitude (v : α) (xs : List α) : Prop where
  bound : ∀ x ∈ xs, magnitude x ≤ v
  attained : xs ≠ [] → ∃ x ∈ xs, v ≤ magnitude x
  empty : xs = [] → v = 0
  infinite : (∃ x ∈ xs, isFinite x = false) → isFinite v = false

/-- The vector `x - y`. -/
def differences (x y : List α) : List α := List.zipWith (· - ·) x y

/-- The scalars that are numbers. -/
def numbers (xs : List α) : List α := xs.filter fun x => !isNaN x

theorem numbers_eq_self {xs : List α} (h : ∀ x ∈ xs, isNaN x = false) : numbers xs = xs := by
  rw [numbers, List.filter_eq_self]
  exact fun x hx => by rw [h x hx, Bool.not_false]

theorem isNaN_of_mem_numbers {xs : List α} : ∀ x ∈ numbers xs, isNaN x = false := by
  intro x hx
  have hnumber := (List.mem_filter.mp hx).2
  rwa [Bool.not_eq_true'] at hnumber

/-! ### Magnitudes -/

section

variable [OrderedScalar α]

theorem le_self {x : α} (h : isNaN x = false) : x ≤ x := by
  by_cases hlt : x < x
  · exact OrderedScalar.le_of_lt hlt
  · exact OrderedScalar.le_of_not_lt h h hlt

variable [SignedScalar α]

theorem zero_le_magnitude {x : α} (h : isNaN x = false) : 0 ≤ magnitude x := by
  unfold magnitude
  split
  · next hx => exact SignedScalar.zero_le_neg hx
  · next hx => exact OrderedScalar.le_of_not_lt h SignedScalar.isNaN_zero hx

theorem isNaN_magnitude (x : α) : isNaN (magnitude x) = isNaN x := by
  cases h : isNaN x with
  | false => exact (OrderedScalar.isNaN_of_le (zero_le_magnitude h)).2
  | true =>
    have hmagnitude : magnitude x = x := if_neg (not_lt_of_isNaN h 0).2
    rw [hmagnitude, h]

/-! ### The infinity norm -/

theorem isNaN_largestMagnitudeFrom {bound : α} (hbound : isNaN bound = false) (xs : List α) :
    isNaN (largestMagnitudeFrom bound xs) = xs.any isNaN := by
  induction xs generalizing bound with
  | nil => exact hbound
  | cons x xs ih =>
    rw [largestMagnitudeFrom, List.any_cons, isNaN_magnitude]
    cases hx : isNaN x with
    | true => rw [if_pos rfl, isNaN_magnitude, hx, Bool.true_or]
    | false =>
      have hmagnitude : isNaN (magnitude x) = false := by rw [isNaN_magnitude, hx]
      rw [if_neg Bool.false_ne_true, ih (isNaN_larger hbound hmagnitude), Bool.false_or]

/-- The infinity norm is no number just if there is an entry that is none. -/
theorem isNaN_largestMagnitude (xs : List α) : isNaN (largestMagnitude xs) = xs.any isNaN :=
  isNaN_largestMagnitudeFrom SignedScalar.isNaN_zero xs

omit [OrderedScalar α] [SignedScalar α] in
theorem largestMagnitudeFrom_eq_or (bound : α) (xs : List α) :
    largestMagnitudeFrom bound xs = bound ∨
      ∃ x ∈ xs, largestMagnitudeFrom bound xs = magnitude x := by
  induction xs generalizing bound with
  | nil => exact Or.inl rfl
  | cons x xs ih =>
    rw [largestMagnitudeFrom]
    split
    · exact Or.inr ⟨x, List.mem_cons_self, rfl⟩
    · rcases ih (larger bound (magnitude x)) with h | ⟨x', hx', h⟩
      · rw [h, larger]
        split
        · exact Or.inr ⟨x, List.mem_cons_self, rfl⟩
        · exact Or.inl rfl
      · exact Or.inr ⟨x', List.mem_cons_of_mem x hx', h⟩

theorem isLargestMagnitude_largestMagnitude {xs : List α} (h : ∀ x ∈ xs, isNaN x = false) :
    IsLargestMagnitude (largestMagnitude xs) xs := by
  have hnumber : isNaN (largestMagnitude xs) = false := by
    rw [isNaN_largestMagnitude, List.any_eq_false]
    exact fun x hx => by rw [h x hx]; exact Bool.false_ne_true
  have hbound : ∀ x ∈ xs, magnitude x ≤ largestMagnitude xs :=
    ((largestMagnitudeFrom_le_iff SignedScalar.isNaN_zero xs).mp (le_self hnumber)).2
  refine ⟨hbound, fun hne => ?_, fun hempty => ?_, fun ⟨x, hx, hinfinite⟩ => ?_⟩
  · rcases largestMagnitudeFrom_eq_or 0 xs with hzero | ⟨x, hx, heq⟩
    · obtain ⟨x, hx⟩ := List.exists_mem_of_ne_nil xs hne
      exact ⟨x, hx, by rw [largestMagnitude, hzero]; exact zero_le_magnitude (h x hx)⟩
    · exact ⟨x, hx, by rw [← heq]; exact le_self hnumber⟩
  · rw [hempty]
    rfl
  · by_contra hfinite
    rw [Bool.not_eq_false] at hfinite
    rw [SignedScalar.isFinite_of_magnitude_le (hbound x hx) hfinite] at hinfinite
    cases hinfinite

/-! ### The largest difference -/

/-- What is no number is passed over. -/
theorem foldl_larger_magnitude (bound : α) (xs : List α) :
    (xs.map magnitude).foldl larger bound = largestMagnitudeFrom bound (numbers xs) := by
  induction xs generalizing bound with
  | nil => rfl
  | cons x xs ih =>
    rw [List.map_cons, List.foldl_cons, ih, numbers, numbers]
    cases hx : isNaN x with
    | true =>
      have hpassed : larger bound (magnitude x) = bound :=
        if_neg (not_lt_of_isNaN (by rw [isNaN_magnitude, hx]) bound).1
      rw [List.filter_cons_of_neg (by simp [hx]), hpassed]
    | false =>
      have hnumber : ¬isNaN (magnitude x) = true := by simp [isNaN_magnitude, hx]
      rw [List.filter_cons_of_pos (by simp [hx]), largestMagnitudeFrom, if_neg hnumber]

theorem largestDifference_eq {x y : List α} (h : x.length = y.length) :
    largestDifference x y = .ok (largestMagnitude (numbers (differences x y))) := by
  rw [largestDifference, ofSameLength_of_eq h, largestMagnitude, ← foldl_larger_magnitude,
    differences, List.map_zipWith]

/-- The largest difference is the infinity norm of the differences that are numbers, which is the
largest of their magnitudes. It is the norm of all differences just if all are numbers; that norm
is no number otherwise. -/
theorem largestDifference_eq_norm_iff {x y : List α} (h : x.length = y.length) :
    ∃ v, largestDifference x y = .ok v ∧ v = largestMagnitude (numbers (differences x y)) ∧
      IsLargestMagnitude v (numbers (differences x y)) ∧
      (v = largestMagnitude (differences x y) ↔ ∀ d ∈ differences x y, isNaN d = false) ∧
      ((∃ d ∈ differences x y, isNaN d = true) →
        isNaN (largestMagnitude (differences x y)) = true) := by
  have hnan : (∃ d ∈ differences x y, isNaN d = true) →
      isNaN (largestMagnitude (differences x y)) = true := by
    rw [isNaN_largestMagnitude, List.any_eq_true]
    exact id
  have hnumbers : isNaN (largestMagnitude (numbers (differences x y))) = false := by
    rw [isNaN_largestMagnitude, List.any_eq_false]
    exact fun d hd => by rw [isNaN_of_mem_numbers d hd]; exact Bool.false_ne_true
  refine ⟨_, largestDifference_eq h, rfl,
    isLargestMagnitude_largestMagnitude isNaN_of_mem_numbers, ⟨fun heq d hd => ?_, fun hall => ?_⟩,
    hnan⟩
  · by_contra hd'
    rw [heq, hnan ⟨d, hd, Bool.eq_true_of_not_eq_false hd'⟩] at hnumbers
    cases hnumbers
  · rw [numbers_eq_self hall]

end

/-- An infinite difference is the largest, wherever it stands. -/
theorem largestDifference_eq_norm_infinite :
    ([3, 1 / 0, 2] : List Float).length = ([0, 1, 4] : List Float).length ∧
      largestDifference ([3, 1 / 0, 2] : List Float) [0, 1, 4] = .ok (1 / 0) ∧
      largestMagnitude (differences ([3, 1 / 0, 2] : List Float) [0, 1, 4]) = 1 / 0 := by
  have hlength : ([3, 1 / 0, 2] : List Float).length = ([0, 1, 4] : List Float).length := by
    simp only [List.length_cons, List.length_nil]
  obtain ⟨v, hv, -, -, hiff, -⟩ := largestDifference_eq_norm_iff hlength
  have hnorm : v = largestMagnitude (differences [3, 1 / 0, 2] [0, 1, 4]) :=
    hiff.mpr (by decide +kernel)
  have hinfinite : largestMagnitude (differences ([3, 1 / 0, 2] : List Float) [0, 1, 4]) = 1 / 0 :=
    by decide +kernel
  exact ⟨hlength, by rw [hv, hnorm, hinfinite], hinfinite⟩

/-- Two vectors of which one is no number have the largest difference zero, while the norm of their
difference is no number. -/
theorem not_largestDifference_eq_norm :
    ¬∀ x y : List Float, x.length = y.length →
      largestDifference x y = .ok (largestMagnitude (differences x y)) := by
  intro h
  have heq := h [0 / 0] [0] rfl
  revert heq
  decide +kernel

end DualRecovery
