import DualRecovery.Failure

/-! Machine words, of 64 bits. Sizes and positions are words, and operations on them are checked:
where the result is no word, they fault. -/

namespace DualRecovery.Word

/-- The word with the value `n`. -/
def ofNat (n : Nat) : Except Fault Nat := if n < UInt64.size then .ok n else .error .overflow

theorem ofNat_of_lt {n : Nat} (h : n < UInt64.size) : ofNat n = .ok n := if_pos h

theorem ofNat_of_le {n : Nat} (h : UInt64.size ≤ n) : ofNat n = .error .overflow :=
  if_neg (Nat.not_lt.mpr h)

theorem ofNat_eq_error_iff {n : Nat} {cause : Fault} :
    ofNat n = .error cause ↔ cause = .overflow ∧ UInt64.size ≤ n := by
  rcases Nat.lt_or_ge n UInt64.size with h | h
  · rw [ofNat_of_lt h]
    exact iff_of_false nofun fun hle => Nat.not_le.mpr h hle.2
  · rw [ofNat_of_le h]
    exact ⟨fun heq => ⟨(Except.error.inj heq).symm, h⟩, fun heq => congrArg _ heq.1.symm⟩

theorem eq_of_ofNat {n k : Nat} (h : ofNat n = .ok k) : k = n := by
  unfold ofNat at h
  split at h
  · exact (Except.ok.inj h).symm
  · cases h

end DualRecovery.Word
