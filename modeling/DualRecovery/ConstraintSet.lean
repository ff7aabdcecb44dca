import DualRecovery.Kind
import DualRecovery.Vector.Triangle

/-! The sets on the right-hand sides of constraints. -/

namespace DualRecovery

/-- The first four are sets of numbers; the others are cones of vectors. A natural number is a
dimension, in the three triangle cones the side of a symmetric matrix, whose triangle is packed
row by row. -/
inductive ConstraintSet (α : Type) where
  | greaterThan (lower : α)
  | lessThan (upper : α)
  | equalTo (point : α)
  | interval (lower upper : α)
  | zeroCone (dimension : Nat)
  | nonnegativeCone (dimension : Nat)
  | nonpositiveCone (dimension : Nat)
  | secondOrderCone (dimension : Nat)
  | exponentialCone
  | powerCone (exponent : α)
  | psdTriangleCone (side : Nat)
  | rootDetTriangleCone (side : Nat)
  | logDetTriangleCone (side : Nat)
  deriving DecidableEq, Repr

namespace ConstraintSet

variable {α : Type}

def tag : ConstraintSet α → SetTag
  | greaterThan _ => .greaterThan
  | lessThan _ => .lessThan
  | equalTo _ => .equalTo
  | interval _ _ => .interval
  | zeroCone _ => .zeroCone
  | nonnegativeCone _ => .nonnegativeCone
  | nonpositiveCone _ => .nonpositiveCone
  | secondOrderCone _ => .secondOrderCone
  | exponentialCone => .exponentialCone
  | powerCone _ => .powerCone
  | psdTriangleCone _ => .psdTriangleCone
  | rootDetTriangleCone _ => .rootDetTriangleCone
  | logDetTriangleCone _ => .logDetTriangleCone

/-- The number of entries of an element. The root-determinant cone has one scalar before its
triangle, the log-determinant cone two. -/
def dimension : ConstraintSet α → Nat
  | greaterThan _ | lessThan _ | equalTo _ | interval _ _ => 1
  | zeroCone n | nonnegativeCone n | nonpositiveCone n | secondOrderCone n => n
  | exponentialCone | powerCone _ => 3
  | psdTriangleCone n => triangularNumber n
  | rootDetTriangleCone n => 1 + triangularNumber n
  | logDetTriangleCone n => 2 + triangularNumber n

/-- The dimension, computed in words. -/
def size : ConstraintSet α → Except Fault Nat
  | psdTriangleCone n => Word.triangularNumber n
  | rootDetTriangleCone n => do Word.ofNat (1 + (← Word.triangularNumber n))
  | logDetTriangleCone n => do Word.ofNat (2 + (← Word.triangularNumber n))
  | s => .ok s.dimension

def isScalar (s : ConstraintSet α) : Bool := s.tag.isScalar

/-- The bound of a set that has just one. -/
def constant? : ConstraintSet α → Option α
  | greaterThan c | lessThan c | equalTo c => some c
  | _ => none

/-- The name of the tag, marked with a final letter as the name of a type. -/
def name (s : ConstraintSet α) : String := s.tag.name ++ "T"

/-- A dimension of less than half the number of words does not overflow. The leading scalars of a
triangle cone do not if its triangle does not. -/
theorem size_cases (s : ConstraintSet α) :
    s.size = .ok s.dimension ∨ s.size = .error .overflow ∧ UInt64.size ≤ 2 * s.dimension := by
  have hlead (n k : Nat) (hk : k ≤ 2) (h : n * (n + 1) < UInt64.size) :
      k + triangularNumber n < UInt64.size := by
    have hsize : 4 < UInt64.size := by decide
    rw [triangularNumber]
    omega
  have hlarge (n : Nat) (h : UInt64.size ≤ n * (n + 1)) : UInt64.size ≤ 2 * triangularNumber n := by
    have heven : 2 ∣ UInt64.size := by decide
    rw [triangularNumber]
    omega
  cases s with
  | psdTriangleCone n =>
    rcases Nat.lt_or_ge (n * (n + 1)) UInt64.size with h | h
    · exact Or.inl (Word.triangularNumber_of_lt h)
    · exact Or.inr ⟨Word.triangularNumber_of_le h, hlarge n h⟩
  | rootDetTriangleCone n | logDetTriangleCone n =>
    rcases Nat.lt_or_ge (n * (n + 1)) UInt64.size with h | h
    · left
      rw [size, Word.triangularNumber_of_lt h]
      exact Word.ofNat_of_lt (hlead n _ (by decide) h)
    · right
      have hdimension := hlarge n h
      rw [size, Word.triangularNumber_of_le h, dimension]
      exact ⟨rfl, by omega⟩
  | _ => exact Or.inl rfl

theorem eq_dimension_of_size {s : ConstraintSet α} {n : Nat} (h : s.size = .ok n) :
    n = s.dimension := by
  rcases s.size_cases with heq | ⟨heq, -⟩
  · rw [heq] at h
    exact (Except.ok.inj h).symm
  · rw [heq] at h
    cases h

theorem of_size_eq_error {s : ConstraintSet α} {cause : Fault} (h : s.size = .error cause) :
    cause = .overflow ∧ UInt64.size ≤ 2 * s.dimension := by
  rcases s.size_cases with heq | ⟨heq, hlarge⟩
  · rw [heq] at h
    cases h
  · rw [heq] at h
    exact ⟨(Except.error.inj h).symm, hlarge⟩

theorem dimension_of_isScalar {s : ConstraintSet α} (h : s.isScalar = true) : s.dimension = 1 := by
  cases s <;> simp_all [isScalar, tag, SetTag.isScalar, dimension]

end ConstraintSet

end DualRecovery
