import Mathlib
import DualRecovery.Vector.Basic

/-! How scalars compare. Numbers are ordered on a line, infinities at its ends and the two zeros in
one place; what is no number does not compare. This holds of the binary formats, and with it the
infinity norm is within a tolerance just if the magnitudes of all entries are. -/

namespace DualRecovery

open Scalar

/-- Scalars whose numbers are ordered linearly, but for equal ones that differ in their signs. -/
class OrderedScalar (α : Type) [Scalar α] : Prop where
  le_trans {x y z : α} : x ≤ y → y ≤ z → x ≤ z
  le_of_lt {x y : α} : x < y → x ≤ y
  le_of_not_lt {x y : α} : isNaN x = false → isNaN y = false → ¬x < y → y ≤ x
  isNaN_of_le {x y : α} : x ≤ y → isNaN x = false ∧ isNaN y = false

/-- Scalars are ordered if all their numbers have places on a line. -/
theorem OrderedScalar.of_place {α κ : Type} [Scalar α] [LinearOrder κ] (place : α → Option κ)
    (hle : ∀ x y : α, x ≤ y ↔ ∃ i ∈ place x, ∃ j ∈ place y, i ≤ j)
    (hlt : ∀ x y : α, x < y ↔ ∃ i ∈ place x, ∃ j ∈ place y, i < j)
    (hself : ∀ x : α, (x == x) = (place x).isSome) : OrderedScalar α where
  le_trans {x y z} hxy hyz := by
    obtain ⟨i, hi, j, hj, hij⟩ := (hle x y).mp hxy
    obtain ⟨j', hj', k, hk, hjk⟩ := (hle y z).mp hyz
    obtain rfl := Option.mem_unique hj hj'
    exact (hle x z).mpr ⟨i, hi, k, hk, hij.trans hjk⟩
  le_of_lt {x y} h := by
    obtain ⟨i, hi, j, hj, hij⟩ := (hlt x y).mp h
    exact (hle x y).mpr ⟨i, hi, j, hj, hij.le⟩
  le_of_not_lt {x y} hx hy h := by
    rw [isNaN, hself, Bool.not_eq_false'] at hx hy
    obtain ⟨i, hi⟩ := Option.isSome_iff_exists.mp hx
    obtain ⟨j, hj⟩ := Option.isSome_iff_exists.mp hy
    exact (hle y x).mpr ⟨j, hj, i, hi, not_lt.mp fun hij => h ((hlt x y).mpr ⟨i, hi, j, hj, hij⟩)⟩
  isNaN_of_le {x y} h := by
    obtain ⟨i, hi, j, hj, -⟩ := (hle x y).mp h
    rw [isNaN, isNaN, hself, hself, Option.mem_def.mp hi, Option.mem_def.mp hj]
    exact ⟨rfl, rfl⟩

/-! ### Binary formats -/

section

open Float.Model

/-- The place of a number: by its sign and whether it is infinite, then by its exponent and its
significand, which run the other way below zero. -/
def place : UnpackedFloat → Option (ℤ ×ₗ ℤ ×ₗ ℤ)
  | .notANumber => none
  | .infinity .negative => some (toLex (-2, toLex (0, 0)))
  | .finite .negative m e _ => some (toLex (-1, toLex (-e, -(m : ℤ))))
  | .zero _ => some (toLex (0, toLex (0, 0)))
  | .finite .positive m e _ => some (toLex (1, toLex (e, (m : ℤ))))
  | .infinity .positive => some (toLex (2, toLex (0, 0)))

theorem compare_neg (a b : ℤ) : compare (-a) (-b) = (compare a b).swap := by
  have hanti : StrictAnti fun n : ℤ => -n := fun _ _ h => neg_lt_neg h
  rw [← cmp_eq_compare, ← cmp_eq_compare, cmp_swap]
  exact hanti.cmp_map_eq a b

theorem compare_natCast (m n : ℕ) : compare (m : ℤ) (n : ℤ) = compare m n := by
  rw [← cmp_eq_compare, ← cmp_eq_compare]
  exact Nat.strictMono_cast.cmp_map_eq m n

theorem compare_eq_place (a b : UnpackedFloat) :
    a.compare b = (place a).bind fun i => (place b).map fun j => compare i j := by
  rcases a with (_ | _) | _ | _ | ⟨(_ | _), m, e, _⟩ <;>
    rcases b with (_ | _) | _ | _ | ⟨(_ | _), m', e', _⟩ <;>
    simp only [place, UnpackedFloat.compare, Option.bind_some, Option.map_some, Option.bind_none,
      Option.map_none, Prod.Lex.compare_def, compareLex, compareOn, ofLex_toLex, compare_neg,
      compare_natCast, Ordering.swap_then]
  all_goals rfl

theorem le_iff_place (a b : UnpackedFloat) :
    a.le b = true ↔ ∃ i ∈ place a, ∃ j ∈ place b, i ≤ j := by
  have hle (i j : ℤ ×ₗ ℤ ×ₗ ℤ) : (compare i j).isLE = true ↔ i ≤ j := by
    rw [Ordering.isLE_iff_ne_gt, ← not_lt]
    exact compare_gt_iff_gt.not
  rw [UnpackedFloat.le, compare_eq_place]
  cases place a with
  | none => simp
  | some i => cases place b <;> simp [hle]

theorem lt_iff_place (a b : UnpackedFloat) :
    a.lt b = true ↔ ∃ i ∈ place a, ∃ j ∈ place b, i < j := by
  have hlt (i j : ℤ ×ₗ ℤ ×ₗ ℤ) : compare i j = .lt ↔ i < j := compare_lt_iff_lt
  rw [UnpackedFloat.lt, compare_eq_place]
  cases place a with
  | none => simp
  | some i => cases place b <;> simp [hlt]

theorem beq_self_place (a : UnpackedFloat) : a.beq a = (place a).isSome := by
  rw [UnpackedFloat.beq, compare_eq_place]
  cases place a <;> simp

instance : OrderedScalar Float := by
  refine .of_place (fun x => place x.toModel.unpack) (fun x y => ?_) (fun x y => ?_) fun x => ?_
  · exact decide_eq_true_iff.trans (le_iff_place _ _)
  · exact decide_eq_true_iff.trans (lt_iff_place _ _)
  · exact beq_self_place _

instance : OrderedScalar Float32 := by
  refine .of_place (fun x => place x.toModel.unpack) (fun x y => ?_) (fun x y => ?_) fun x => ?_
  · exact decide_eq_true_iff.trans (le_iff_place _ _)
  · exact decide_eq_true_iff.trans (lt_iff_place _ _)
  · exact beq_self_place _

end

/-! ### The infinity norm -/

section

variable {α : Type} [Scalar α] [OrderedScalar α]

theorem larger_le_iff {x y t : α} (hx : isNaN x = false) (hy : isNaN y = false) :
    larger x y ≤ t ↔ x ≤ t ∧ y ≤ t := by
  unfold larger
  split
  · next h =>
    exact ⟨fun hyt => ⟨OrderedScalar.le_trans (OrderedScalar.le_of_lt h) hyt, hyt⟩, And.right⟩
  · next h =>
    have hyx := OrderedScalar.le_of_not_lt hx hy h
    exact ⟨fun hxt => ⟨hxt, OrderedScalar.le_trans hyx hxt⟩, And.left⟩

omit [OrderedScalar α] in
theorem isNaN_larger {x y : α} (hx : isNaN x = false) (hy : isNaN y = false) :
    isNaN (larger x y) = false := by
  unfold larger
  split
  · exact hy
  · exact hx

theorem largestMagnitudeFrom_le_iff {bound t : α} (hbound : isNaN bound = false) (xs : List α) :
    largestMagnitudeFrom bound xs ≤ t ↔ bound ≤ t ∧ ∀ x ∈ xs, magnitude x ≤ t := by
  induction xs generalizing bound with
  | nil => simp [largestMagnitudeFrom]
  | cons x xs ih =>
    rw [largestMagnitudeFrom, List.forall_mem_cons]
    cases hx : isNaN (magnitude x) with
    | true =>
      -- what is no number is the norm, and within no tolerance
      have hnot : ¬magnitude x ≤ t := fun h => by
        rw [(OrderedScalar.isNaN_of_le h).1] at hx
        cases hx
      rw [if_pos rfl]
      exact iff_of_false hnot fun h => hnot h.2.1
    | false =>
      rw [if_neg Bool.false_ne_true, ih (isNaN_larger hbound hx), larger_le_iff hbound hx,
        and_assoc]

/-- The infinity norm is within a tolerance if and only if all magnitudes are. -/
theorem largestMagnitude_le_iff_forall {t : α} (ht : 0 ≤ t) (xs : List α) :
    largestMagnitude xs ≤ t ↔ ∀ x ∈ xs, magnitude x ≤ t :=
  (largestMagnitudeFrom_le_iff (OrderedScalar.isNaN_of_le ht).1 xs).trans (and_iff_right ht)

end

end DualRecovery
