/-! The sum of a list by halves: short lists are added up from the left, longer ones are cut in the
middle. The depth of the additions, and with it the rounding error, grows with the logarithm of
the length. -/

namespace DualRecovery

/-- The longest list that is summed without a cut. -/
def sumBlock : Nat := 16

variable {α : Type} [Zero α] [Add α]

def pairwiseSum (xs : List α) : α :=
  if xs.length ≤ sumBlock then xs.foldl (· + ·) 0
  else pairwiseSum (xs.take (xs.length / 2)) + pairwiseSum (xs.drop (xs.length / 2))
termination_by xs.length
decreasing_by all_goals simp only [sumBlock, List.length_take, List.length_drop] at *; omega

theorem pairwiseSum_of_length_le {xs : List α} (h : xs.length ≤ sumBlock) :
    pairwiseSum xs = xs.foldl (· + ·) 0 := by
  rw [pairwiseSum, if_pos h]

theorem pairwiseSum_of_lt_length {xs : List α} (h : sumBlock < xs.length) :
    pairwiseSum xs =
      pairwiseSum (xs.take (xs.length / 2)) + pairwiseSum (xs.drop (xs.length / 2)) := by
  rw [pairwiseSum, if_neg (Nat.not_le.mpr h)]

@[simp] theorem pairwiseSum_nil : pairwiseSum ([] : List α) = 0 := by
  simp [pairwiseSum]

end DualRecovery
