import Mathlib

/-! How numbers are packed into the bits of a binary format. Packing what was unpacked gives the
bits back, and what is unpacked is canonical: its exponent is the one that the format has for its
significand. -/

namespace DualRecovery.Binary

open Float.Model (Format UnpackedFloat totalExponent)
open Float.Model.UnpackedFloat

variable {fmt : Format}

/-! ### The sizes of a format -/

theorem mantissaBits_eq (fmt : Format) :
    fmt.mantissaBits = fmt.mantissaBitsWithoutImplicit + 1 := Nat.add_comm _ _

theorem two_pow_exponentBits (fmt : Format) : 2 ^ fmt.exponentBits = 2 * fmt.exponentBias + 2 := by
  have hpos : 0 < 2 ^ (fmt.exponentBits - 1) := Nat.two_pow_pos _
  have hpow : 2 ^ fmt.exponentBits = 2 ^ (fmt.exponentBits - 1) * 2 := by
    rw [← pow_succ, Nat.sub_add_cancel fmt.he]
  rw [hpow, Format.exponentBias]
  omega

theorem minExponent_eq (fmt : Format) :
    fmt.minExponent = 1 - fmt.exponentBias - fmt.mantissaBitsWithoutImplicit := by
  have hpos : 1 ≤ 2 ^ (fmt.exponentBits - 1) := Nat.two_pow_pos _
  rw [Format.minExponent, mantissaBits_eq, Format.exponentBias, Nat.cast_sub hpos]
  push_cast
  ring

theorem neg_one_ne_zero (fmt : Format) : (0 : BitVec fmt.exponentBits) ≠ -1#_ := fun h => by
  have hnat := congrArg BitVec.toNat h
  rw [BitVec.neg_one_eq_allOnes, BitVec.toNat_allOnes, two_pow_exponentBits] at hnat
  simp at hnat

/-! ### Signs, exponents and significands -/

theorem ofBitVec_toBitVec (s : Sign) : Sign.ofBitVec s.toBitVec = s := by
  cases s <;> rfl

theorem toBitVec_ofBitVec (b : BitVec 1) : (Sign.ofBitVec b).toBitVec = b := by
  rcases BitVec.eq_zero_or_eq_one b with rfl | rfl <;> rfl

theorem unpackSign_packComponents (s : Sign) (e : BitVec fmt.exponentBits)
    (m : BitVec fmt.mantissaBitsWithoutImplicit) :
    unpackSign (packComponents fmt s e m) = s.toBitVec := by
  ext i hi
  obtain rfl : i = 0 := by omega
  simp [unpackSign, packComponents, BitVec.getLsbD_append, BitVec.getElem_append]

theorem packComponents_unpack (b : BitVec fmt.numBits) :
    packComponents fmt (Sign.ofBitVec (unpackSign b)) (unpackExponent b) (unpackMantissa b) =
      b := by
  rw [packComponents, toBitVec_ofBitVec]
  ext i hi
  have hm := fmt.hm
  have he := fmt.he
  simp [unpackSign, unpackExponent, unpackMantissa, BitVec.getElem_append]
  grind

/-- The bits with a given exponent and significand. -/
theorem packComponents_eq {b : BitVec fmt.numBits} {e : BitVec fmt.exponentBits}
    {m : BitVec fmt.mantissaBitsWithoutImplicit} (he : unpackExponent b = e)
    (hm : unpackMantissa b = m) :
    packComponents fmt (Sign.ofBitVec (unpackSign b)) e m = b := by
  rw [← he, ← hm, packComponents_unpack]

theorem toNat_one_append {k : ℕ} (m : BitVec k) : (1#1 ++ m).toNat = 2 ^ k + m.toNat := by
  rw [BitVec.toNat_append, ← Nat.shiftLeft_add_eq_or_of_lt m.isLt]
  simp [Nat.shiftLeft_eq]

theorem log2_one_append {k : ℕ} (m : BitVec k) : (1#1 ++ m).toNat.log2 = k := by
  have hpos : 0 < 2 ^ k := Nat.two_pow_pos k
  rw [toNat_one_append, Nat.log2_eq_iff (by omega), pow_succ]
  have hlt := m.isLt
  omega

/-! ### Unpacking and packing -/

/-- The exponent is the one that the format has for the significand. -/
def Canonical (fmt : Format) (m : ℕ) (e : ℤ) : Prop := fmt.targetExponent (totalExponent m e) = e

/-- The significand fills its bits, or the exponent is the least. -/
theorem canonical_iff {m : ℕ} {e : ℤ} :
    Canonical fmt m e ↔ fmt.minExponent ≤ e ∧ m.log2 ≤ fmt.mantissaBitsWithoutImplicit ∧
      (e = fmt.minExponent ∨ m.log2 = fmt.mantissaBitsWithoutImplicit) := by
  rw [Canonical, Format.targetExponent, totalExponent, mantissaBits_eq]
  omega

theorem canonical_unpack {b : BitVec fmt.numBits} {s : Sign} {m : ℕ} {e : ℤ} {hm : 0 < m}
    (h : unpack fmt b = .finite s m e hm) : Canonical fmt m e := by
  have hmin := minExponent_eq fmt
  rw [canonical_iff]
  unfold unpack at h
  dsimp only at h
  split_ifs at h with hmax hnone hzero hnone
  · cases h
    have hlog : (unpackMantissa b).toNat.log2 < fmt.mantissaBitsWithoutImplicit :=
      (Nat.log2_lt hm.ne').mpr (unpackMantissa b).isLt
    have hexponent : (unpackExponent b).toNat = 0 := by rw [hzero]; rfl
    omega
  · cases h
    have hexponent : 0 < (unpackExponent b).toNat := BitVec.toNat_pos_of_ne_zero hzero
    rw [log2_one_append]
    omega

theorem unpack_of_max {b : BitVec fmt.numBits} (h : unpackExponent b = -1#_) :
    unpack fmt b = if unpackMantissa b = 0#_ then .infinity (Sign.ofBitVec (unpackSign b))
      else .notANumber :=
  if_pos h

theorem unpack_of_zero {b : BitVec fmt.numBits} (hexponent : unpackExponent b = 0)
    (hnone : unpackMantissa b = 0) : unpack fmt b = .zero (Sign.ofBitVec (unpackSign b)) := by
  have hmax : unpackExponent b ≠ -1#_ := hexponent ▸ neg_one_ne_zero fmt
  exact (if_neg hmax).trans ((if_pos hexponent).trans (dif_pos hnone))

theorem unpack_packedZero (s : Sign) : unpack fmt (packedZero fmt s) = .zero s := by
  rw [packedZero, unpack_of_zero unpackExponent_packComponents unpackMantissa_packComponents,
    unpackSign_packComponents, ofBitVec_toBitVec]

theorem unpack_packedInfinity (s : Sign) : unpack fmt (packedInfinity fmt s) = .infinity s := by
  rw [packedInfinity, unpack_of_max unpackExponent_packComponents, unpackMantissa_packComponents,
    unpackSign_packComponents, ofBitVec_toBitVec]
  exact if_pos rfl

theorem unpack_packedNaN (fmt : Format) : unpack fmt (packedNaN fmt) = .notANumber := by
  have hm := fmt.hm
  have hsome : BitVec.ofNat fmt.mantissaBitsWithoutImplicit 1 <<<
      (fmt.mantissaBitsWithoutImplicit - 1) ≠ 0#_ := fun h => by
    have hbit := congrArg (BitVec.getLsbD · (fmt.mantissaBitsWithoutImplicit - 1)) h
    simp [hm] at hbit
  rw [packedNaN, unpack_of_max unpackExponent_packComponents, unpackMantissa_packComponents,
    if_neg hsome]

/-- With one bit for the exponent, subnormal numbers would be packed as infinities. -/
theorem pack_unpack (hwide : 1 < fmt.exponentBits) {b : BitVec fmt.numBits} (hb : fmt.Valid b) :
    pack fmt (unpack fmt b) = b := by
  have hbits := mantissaBits_eq fmt
  unfold unpack
  dsimp only
  split_ifs with hmax hnone hzero hnone
  · exact packComponents_eq hmax hnone
  · exact (hb.eq_packedNaN hmax hnone).symm
  · exact packComponents_eq hzero hnone
  · have hpos : 0 < (unpackMantissa b).toNat := BitVec.toNat_pos_of_ne_zero hnone
    have hlog : (unpackMantissa b).toNat.log2 < fmt.mantissaBitsWithoutImplicit :=
      (Nat.log2_lt hpos.ne').mpr (unpackMantissa b).isLt
    have hexponent : (unpackExponent b).toNat = 0 := by rw [hzero]; rfl
    have hfour : 2 ^ 2 ≤ 2 ^ fmt.exponentBits := Nat.pow_le_pow_right (by decide) hwide
    rw [pack, if_neg (by omega), if_neg (by omega), BitVec.ofNat_toNat, BitVec.setWidth_eq]
    exact packComponents_eq hzero rfl
  · have hlt : (unpackExponent b).toNat ≠ 2 ^ fmt.exponentBits - 1 := fun h => hmax <| by
      rw [← BitVec.toNat_inj, h, BitVec.neg_one_eq_allOnes, BitVec.toNat_allOnes]
    have hbiased : (((unpackExponent b).toNat : ℤ) -
        (fmt.exponentBias + fmt.mantissaBitsWithoutImplicit) + fmt.exponentBias +
          fmt.mantissaBitsWithoutImplicit).toNat = (unpackExponent b).toNat := by
      omega
    have hexponent := (unpackExponent b).isLt
    rw [pack, hbiased, log2_one_append, if_neg (by omega), if_pos hbits.symm]
    refine packComponents_eq ?_ ?_
    · rw [BitVec.ofNat_toNat, BitVec.setWidth_eq]
    · rw [← BitVec.toNat_inj, BitVec.toNat_ofNat, toNat_one_append, Nat.add_mod_left,
        Nat.mod_eq_of_lt (unpackMantissa b).isLt]

/-! ### Opposite numbers -/

theorem unpack_packComponents_neg (s : Sign) (e : BitVec fmt.exponentBits)
    (m : BitVec fmt.mantissaBitsWithoutImplicit) :
    unpack fmt (packComponents fmt (-s) e m) = (unpack fmt (packComponents fmt s e m)).neg := by
  unfold unpack
  simp only [unpackExponent_packComponents, unpackMantissa_packComponents,
    unpackSign_packComponents, ofBitVec_toBitVec]
  split_ifs <;> rfl

/-- What opposite numbers are packed as differs in the sign only. -/
theorem unpack_pack_neg (u : UnpackedFloat) :
    unpack fmt (pack fmt u.neg) = (unpack fmt (pack fmt u)).neg := by
  rcases u with s | _ | s | ⟨s, m, e, hm⟩
  · exact unpack_packComponents_neg s _ _
  · show unpack fmt (packedNaN fmt) = (unpack fmt (packedNaN fmt)).neg
    rw [unpack_packedNaN]
    rfl
  · exact unpack_packComponents_neg s _ _
  · show unpack fmt (pack fmt (.finite (-s) m e hm)) = _
    unfold pack
    dsimp only
    split_ifs
    · exact unpack_packComponents_neg s _ _
    · exact unpack_packComponents_neg s _ _
    · exact unpack_packComponents_neg s _ _

end DualRecovery.Binary
