import DualRecovery.Proofs.Rational

/-! How operations treat what is no number, zeros and signs. What is no number is never lost on the
way through sums and products. A zero, of which a format may have two, makes no difference to a sum.
Magnitudes are not below zero. This holds of the exact scalars and of the binary formats. -/

namespace DualRecovery

open Scalar

/-- Scalars where an operation on what is no number gives no number. -/
class AbsorbingScalar (α : Type) [Scalar α] : Prop where
  isNaN_neg {x : α} : isNaN x = true → isNaN (-x) = true
  isNaN_add {x y : α} : isNaN x = true ∨ isNaN y = true → isNaN (x + y) = true
  isNaN_sub {x y : α} : isNaN x = true ∨ isNaN y = true → isNaN (x - y) = true
  isNaN_mul {x y : α} : isNaN x = true ∨ isNaN y = true → isNaN (x * y) = true

/-- Scalars with neutral zeros. That `x + 0 = x` holds unless `x` is a negative zero; sums that
start from another scalar never become one. -/
class NeutralZero (α : Type) [Scalar α] : Prop where
  sub_zero (x : α) : x - 0 = x
  neg_one_mul_zero_add (x : α) : -1 * 0 + 1 * x = x
  zero_add_zero : (0 : α) + 0 = 0
  add_add_zero {x : α} (y : α) : x + 0 = x → x + y + 0 = x + y
  add_eq_of_beq_zero {x z : α} : x + 0 = x → (z == 0) = true → x + z = x
  mul_beq_zero {x z : α} : isFinite x = true → (z == 0) = true → (x * z == 0) = true
  isNaN_mul_of_beq_zero {x z : α} : isFinite x = false → (z == 0) = true → isNaN (x * z) = true
  not_lt_of_beq_zero {z : α} : (z == 0) = true → ¬0 < z ∧ ¬z < 0

/-- Scalars where the numbers below zero have their opposites above it, and where nothing finite is
above an infinite magnitude. -/
class SignedScalar (α : Type) [Scalar α] : Prop where
  isNaN_zero : isNaN (0 : α) = false
  zero_le_neg {x : α} : x < 0 → 0 ≤ -x
  isFinite_of_magnitude_le {x y : α} : magnitude x ≤ y → isFinite y = true → isFinite x = true

/-! ### Rational numbers -/

theorem Scalar.isFinite_rat (x : ℚ) : isFinite x = true := by
  rw [isFinite, isNaN_rat]
  rfl

instance : AbsorbingScalar ℚ where
  isNaN_neg h := absurd h (by simp [isNaN_rat])
  isNaN_add h := absurd h (by simp [isNaN_rat])
  isNaN_sub h := absurd h (by simp [isNaN_rat])
  isNaN_mul h := absurd h (by simp [isNaN_rat])

instance : NeutralZero ℚ where
  sub_zero := sub_zero
  neg_one_mul_zero_add x := by ring
  zero_add_zero := add_zero 0
  add_add_zero y _ := add_zero _
  add_eq_of_beq_zero _ hz := by rw [eq_of_beq hz, add_zero]
  mul_beq_zero _ hz := by rw [eq_of_beq hz, mul_zero]; rfl
  isNaN_mul_of_beq_zero h := absurd h (by simp [isFinite_rat])
  not_lt_of_beq_zero hz := by
    rw [eq_of_beq hz]
    exact ⟨lt_irrefl 0, lt_irrefl 0⟩

instance : SignedScalar ℚ where
  isNaN_zero := isNaN_rat 0
  zero_le_neg h := neg_nonneg.mpr h.le
  isFinite_of_magnitude_le _ _ := isFinite_rat _

/-! ### Sums that are no number -/

theorem not_lt_of_isNaN {α : Type} [Scalar α] [OrderedScalar α] {y : α} (hy : isNaN y = true)
    (x : α) : ¬x < y ∧ ¬y < x := by
  constructor
  · intro h
    exact absurd (OrderedScalar.isNaN_of_le (OrderedScalar.le_of_lt h)).2 (by simp [hy])
  · intro h
    exact absurd (OrderedScalar.isNaN_of_le (OrderedScalar.le_of_lt h)).1 (by simp [hy])

section

variable {α : Type} [Scalar α] [AbsorbingScalar α]

theorem isNaN_foldl_add {x : α} {xs : List α} (h : isNaN x = true ∨ ∃ y ∈ xs, isNaN y = true) :
    isNaN (xs.foldl (· + ·) x) = true := by
  induction xs generalizing x with
  | nil => exact h.resolve_right (by simp)
  | cons y xs ih =>
    refine ih ?_
    rcases h with hx | ⟨z, hz, hnan⟩
    · exact Or.inl (AbsorbingScalar.isNaN_add (Or.inl hx))
    · rcases List.mem_cons.mp hz with rfl | hz
      · exact Or.inl (AbsorbingScalar.isNaN_add (Or.inr hnan))
      · exact Or.inr ⟨z, hz, hnan⟩

theorem isNaN_pairwiseSum {xs : List α} (h : ∃ x ∈ xs, isNaN x = true) :
    isNaN (pairwiseSum xs) = true := by
  fun_induction pairwiseSum xs with
  | case1 xs hshort => exact isNaN_foldl_add (Or.inr h)
  | case2 xs hlong ih1 ih2 =>
    obtain ⟨x, hx, hnan⟩ := h
    rw [← List.take_append_drop (xs.length / 2) xs, List.mem_append] at hx
    exact AbsorbingScalar.isNaN_add (hx.imp (fun hx => ih1 ⟨x, hx, hnan⟩)
      fun hx => ih2 ⟨x, hx, hnan⟩)

/-- The other list is as long, so that no entry is left out of the product. -/
theorem isNaN_dotEntries {x y : List α} (hlen : x.length = y.length)
    (h : ∃ yᵢ ∈ y, isNaN yᵢ = true) : isNaN (dotEntries x y) = true := by
  obtain ⟨yᵢ, hy, hnan⟩ := h
  obtain ⟨i, hi, rfl⟩ := List.getElem_of_mem hy
  refine isNaN_pairwiseSum ⟨x[i] * y[i], ?_, AbsorbingScalar.isNaN_mul (Or.inr hnan)⟩
  have hzip : i < (List.zipWith (· * ·) x y).length := by simp [hlen, hi]
  have hget := List.getElem_mem hzip
  rwa [List.getElem_zipWith] at hget

end

end DualRecovery
