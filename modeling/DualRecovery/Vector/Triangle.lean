import DualRecovery.Word

/-! Symmetric matrices packed as the rows of their lower triangles: row `i` holds its `i` entries
left of the diagonal and then the diagonal entry. -/

namespace DualRecovery

/-- The number of entries in the first `k` rows. -/
def triangularNumber (k : Nat) : Nat := k * (k + 1) / 2

/-- The position of the diagonal entry of row `k`. -/
def diagonalIndex (k : Nat) : Nat := k * (k + 3) / 2

@[simp] theorem triangularNumber_zero : triangularNumber 0 = 0 := rfl

theorem triangularNumber_succ (k : Nat) :
    triangularNumber (k + 1) = triangularNumber k + (k + 1) := by
  have h : (k + 1) * (k + 1 + 1) = k * (k + 1) + (k + 1) * 2 := by grind
  rw [triangularNumber, triangularNumber, h, Nat.add_mul_div_right _ _ (by decide)]

theorem diagonalIndex_eq (k : Nat) : diagonalIndex k = triangularNumber k + k := by
  have h : k * (k + 3) = k * (k + 1) + k * 2 := by grind
  rw [diagonalIndex, triangularNumber, h, Nat.add_mul_div_right _ _ (by decide)]

namespace Word

/-- The number of entries in the first `k` rows, computed in words. -/
def triangularNumber (k : Nat) : Except Fault Nat := (· / 2) <$> ofNat (k * (k + 1))

/-- The position of the diagonal entry of row `k`, computed in words. -/
def diagonalIndex (k : Nat) : Except Fault Nat := (· / 2) <$> ofNat (k * (k + 3))

theorem triangularNumber_of_lt {k : Nat} (h : k * (k + 1) < UInt64.size) :
    triangularNumber k = .ok (DualRecovery.triangularNumber k) := by
  rw [triangularNumber, ofNat_of_lt h]
  rfl

theorem triangularNumber_of_le {k : Nat} (h : UInt64.size ≤ k * (k + 1)) :
    triangularNumber k = .error .overflow := by
  rw [triangularNumber, ofNat_of_le h]
  rfl

/-- In a triangle whose number of entries is a word, so are the bounds of the rows. -/
theorem rowBounds {side n i : Nat} (h : triangularNumber side = .ok n) (hi : i < side) :
    triangularNumber i = .ok (DualRecovery.triangularNumber i) ∧
      diagonalIndex i = .ok (DualRecovery.diagonalIndex i) := by
  have hword : side * (side + 1) < UInt64.size := by
    refine Nat.lt_of_not_le fun hle => ?_
    rw [triangularNumber_of_le hle] at h
    cases h
  have hfirst : i * (i + 1) ≤ side * (side + 1) := Nat.mul_le_mul (by omega) (by omega)
  have hlast : i * (i + 3) ≤ side * (side + 1) :=
    calc i * (i + 3) ≤ i * (i + 3) + 2 := Nat.le_add_right _ _
      _ = (i + 1) * (i + 2) := by grind
      _ ≤ side * (side + 1) := Nat.mul_le_mul hi (by omega)
  refine ⟨triangularNumber_of_lt (Nat.lt_of_le_of_lt hfirst hword), ?_⟩
  rw [diagonalIndex, ofNat_of_lt (Nat.lt_of_le_of_lt hlast hword)]
  rfl

end Word

/-- A row of a packed triangle. -/
structure TriangleRow (α : Type) where
  offDiagonal : List α
  diagonal : α
  deriving DecidableEq, Repr

namespace TriangleRow

variable {α : Type}

/-- The next `count` rows, of which the first has `i` entries left of the diagonal. -/
def take : (count i : Nat) → List α → List (TriangleRow α)
  | 0, _, _ => []
  | count + 1, i, xs =>
    match xs.drop i with
    | [] => []
    | d :: rest => ⟨xs.take i, d⟩ :: take count (i + 1) rest

end TriangleRow

/-- The rows of the packed triangle of side `side` at the front of `xs`. -/
def triangleRows {α : Type} (side : Nat) (xs : List α) : List (TriangleRow α) :=
  TriangleRow.take side 0 xs

end DualRecovery
