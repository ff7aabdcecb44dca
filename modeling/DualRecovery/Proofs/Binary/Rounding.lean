import DualRecovery.Proofs.Binary.Packing

/-! How significands are rounded. A number that is not zero is rounded to zero only below the least
exponent of the format, and a canonical number is not changed, whatever power of two was moved from
its exponent to its significand. -/

namespace DualRecovery.Binary

open Float.Model (Format UnpackedFloat totalExponent)
open Float.Model.UnpackedFloat

variable {fmt : Format}

/-! ### Shifts -/

theorem mantissa_shiftRight (em : ExtendedMantissa) (k : ℕ) :
    (em >>> k).mantissa = em.mantissa / 2 ^ k := by
  induction k with
  | zero => exact (Nat.div_one _).symm
  | succ k ih =>
    show (em >>> k).mantissa / 2 = _
    rw [ih, Nat.div_div_eq_div_mul, pow_succ]

theorem exact_shiftRight (m k : ℕ) :
    (⟨m * 2 ^ k, false, false⟩ : ExtendedMantissa) >>> k = ⟨m, false, false⟩ := by
  induction k generalizing m with
  | zero => exact congrArg (ExtendedMantissa.mk · false false) (Nat.mul_one m)
  | succ k ih =>
    have hshift : m * 2 ^ (k + 1) = m * 2 * 2 ^ k := by ring
    rw [hshift]
    show ((⟨m * 2 * 2 ^ k, false, false⟩ : ExtendedMantissa) >>> k).shiftRightOne = _
    rw [ih]
    simp [ExtendedMantissa.shiftRightOne]

theorem log2_mul_two_pow {m : ℕ} (hm : m ≠ 0) (k : ℕ) : (m * 2 ^ k).log2 = m.log2 + k := by
  induction k with
  | zero => rw [pow_zero, mul_one, add_zero]
  | succ k ih =>
    have hne : m * 2 ^ k ≠ 0 := mul_ne_zero hm (Nat.two_pow_pos k).ne'
    rw [pow_succ, ← mul_assoc, Nat.log2_eq_log_two, Nat.log_mul_base Nat.one_lt_two hne,
      ← Nat.log2_eq_log_two, ih, add_assoc]

theorem mantissa_ofMantissaAndAccuracy (m : ℕ) (accuracy : Accuracy) :
    (ExtendedMantissa.ofMantissaAndAccuracy m accuracy).mantissa = m := by
  rcases accuracy with _ | _ | _ | _ <;> rfl

theorem le_roundedMantissa (em : ExtendedMantissa) : em.mantissa ≤ em.roundedMantissa := by
  rw [ExtendedMantissa.roundedMantissa]
  generalize em.accuracy = accuracy
  rcases accuracy with _ | _ | _ | _
  · exact le_rfl
  · exact le_rfl
  · exact Nat.le_add_right _ _
  · exact Nat.le_succ _

/-- A significand that is not zero keeps its leading bit, in a place where the format has one. -/
theorem shiftToTargetExponent_bounds {m : ℕ} (hm : 0 < m) {e : ℤ} (he : fmt.minExponent ≤ e)
    (accuracy : Accuracy) :
    0 < (shiftToTargetExponent fmt m e accuracy).1.mantissa ∧
      (shiftToTargetExponent fmt m e accuracy).1.mantissa.log2 ≤
        fmt.mantissaBitsWithoutImplicit ∧
      fmt.minExponent ≤ (shiftToTargetExponent fmt m e accuracy).2 := by
  have hshift : (fmt.targetExponent (totalExponent m e) - e).toNat =
      m.log2 - fmt.mantissaBitsWithoutImplicit := by
    rw [Format.targetExponent, totalExponent, mantissaBits_eq]
    omega
  unfold shiftToTargetExponent shiftToExponent
  dsimp only
  rw [mantissa_shiftRight, mantissa_ofMantissaAndAccuracy, hshift]
  have hpow : 2 ^ (m.log2 - fmt.mantissaBitsWithoutImplicit) ≤ m :=
    (Nat.pow_le_pow_right Nat.two_pos (Nat.sub_le _ _)).trans (Nat.log2_self_le hm.ne')
  have hlog : (m / 2 ^ (m.log2 - fmt.mantissaBitsWithoutImplicit)).log2 =
      m.log2 - (m.log2 - fmt.mantissaBitsWithoutImplicit) := by
    simp only [Nat.log2_eq_log_two, Nat.log_div_base_pow]
  refine ⟨Nat.div_pos hpow (Nat.two_pow_pos _), ?_, ?_⟩
  · omega
  · omega

/-! ### Rounding -/

/-- No number from the least exponent on is rounded to zero. -/
theorem exists_roundWithAccuracy (s : Sign) {m : ℕ} (hm : 0 < m) {e : ℤ}
    (he : fmt.minExponent ≤ e) (accuracy : Accuracy) :
    ∃ m' e', ∃ hm' : 0 < m', roundWithAccuracy fmt s m e accuracy = .finite s m' e' hm' ∧
      m'.log2 ≤ fmt.mantissaBitsWithoutImplicit ∧ fmt.minExponent ≤ e' := by
  obtain ⟨hpos, -, hmin⟩ := shiftToTargetExponent_bounds hm he accuracy
  have hrounded := hpos.trans_le (le_roundedMantissa _)
  obtain ⟨hpos', hlog, hmin'⟩ := shiftToTargetExponent_bounds hrounded hmin .exact
  exact ⟨_, _, hpos', dif_neg hpos'.ne', hlog, hmin'⟩

theorem exists_round (s : Sign) {m : ℕ} (hm : 0 < m) {e : ℤ} (he : fmt.minExponent ≤ e) :
    ∃ m' e', ∃ hm' : 0 < m', round fmt s m e = .finite s m' e' hm' ∧
      m'.log2 ≤ fmt.mantissaBitsWithoutImplicit ∧ fmt.minExponent ≤ e' := by
  have hmin : fmt.minExponent ≤ fmt.targetExponent (totalExponent m e) := le_max_right _ _
  refine exists_roundWithAccuracy s ?_ ?_ .exact
  · rw [Nat.shiftLeft_eq]
    exact Nat.mul_pos hm (Nat.two_pow_pos _)
  · omega

theorem shiftToTargetExponent_of_canonical {m : ℕ} (hm : 0 < m) {e : ℤ} (h : Canonical fmt m e)
    (k : ℕ) : shiftToTargetExponent fmt (m * 2 ^ k) (e - k) .exact = (⟨m, false, false⟩, e) := by
  have htotal : totalExponent (m * 2 ^ k) (e - k) = totalExponent m e := by
    rw [totalExponent, totalExponent, log2_mul_two_pow hm.ne' k]
    push_cast
    ring
  have hshift : (e - (e - k)).toNat = k := by omega
  unfold shiftToTargetExponent shiftToExponent
  dsimp only
  rw [htotal, h, hshift]
  exact Prod.ext (exact_shiftRight m k) (sub_add_cancel e k)

/-- A canonical number is rounded to itself. -/
theorem roundWithAccuracy_of_canonical (s : Sign) {m : ℕ} (hm : 0 < m) {e : ℤ}
    (h : Canonical fmt m e) (k : ℕ) :
    roundWithAccuracy fmt s (m * 2 ^ k) (e - k) .exact = .finite s m e hm := by
  have hagain := shiftToTargetExponent_of_canonical hm h 0
  rw [pow_zero, mul_one, Nat.cast_zero, sub_zero] at hagain
  have hrounded : (⟨m, false, false⟩ : ExtendedMantissa).roundedMantissa = m := rfl
  unfold roundWithAccuracy
  simp only [shiftToTargetExponent_of_canonical hm h k, hrounded, hagain]
  exact dif_neg hm.ne'

/-- A number that is not zero is not packed as a zero, be it rounded to an infinity. -/
theorem pack_finite_ne_packedZero {s s' : Sign} {m : ℕ} {e : ℤ} {hm : 0 < m}
    (hlog : m.log2 ≤ fmt.mantissaBitsWithoutImplicit) (he : fmt.minExponent ≤ e) :
    pack fmt (.finite s m e hm) ≠ packedZero fmt s' := fun h => by
  have hmin := minExponent_eq fmt
  have hbits := mantissaBits_eq fmt
  have hexponent := congrArg unpackExponent h
  have hmantissa := congrArg unpackMantissa h
  rw [packedZero, unpackExponent_packComponents] at hexponent
  rw [packedZero, unpackMantissa_packComponents] at hmantissa
  unfold pack at hexponent hmantissa
  dsimp only at hexponent hmantissa
  split_ifs at hexponent hmantissa with hmax hnormal
  · rw [packedInfinity, unpackExponent_packComponents] at hexponent
    exact neg_one_ne_zero fmt hexponent.symm
  · rw [unpackExponent_packComponents] at hexponent
    have hnat := congrArg BitVec.toNat hexponent
    rw [BitVec.toNat_ofNat, Nat.mod_eq_of_lt (by omega)] at hnat
    replace hnat : (e + fmt.exponentBias + fmt.mantissaBitsWithoutImplicit).toNat = 0 := hnat
    omega
  · rw [unpackMantissa_packComponents] at hmantissa
    have hnat := congrArg BitVec.toNat hmantissa
    have hlt : m < 2 ^ fmt.mantissaBitsWithoutImplicit :=
      (Nat.log2_lt hm.ne').mp (by omega)
    rw [BitVec.toNat_ofNat, Nat.mod_eq_of_lt hlt] at hnat
    exact hm.ne' hnat

end DualRecovery.Binary
