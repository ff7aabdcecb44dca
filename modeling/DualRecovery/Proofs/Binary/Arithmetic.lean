import DualRecovery.Proofs.Arithmetic
import DualRecovery.Proofs.Binary.Rounding

/-! The scalars of the binary formats: what is no number is absorbing, zeros are neutral, and
magnitudes are not below zero. -/

namespace DualRecovery

open Scalar
open Float.Model (Format UnpackedFloat)
open Float.Model.UnpackedFloat (Sign round roundWithAccuracy pack packedInfinity packedNaN
  packedZero unpack)

/-! ### Numbers with their signs -/

namespace Binary

variable {fmt : Format}

theorem add_notANumber (u : UnpackedFloat) : u.add fmt .notANumber = .notANumber := by
  cases u <;> rfl

theorem sub_notANumber (u : UnpackedFloat) : u.sub fmt .notANumber = .notANumber := by
  cases u <;> rfl

theorem mul_notANumber (u : UnpackedFloat) : u.mul fmt .notANumber = .notANumber := by
  cases u <;> rfl

theorem sub_zero_positive (u : UnpackedFloat) : u.sub fmt (.zero .positive) = u := by
  rcases u with _ | _ | (_ | _) | _ <;> rfl

theorem zero_negative_add (u : UnpackedFloat) : (UnpackedFloat.zero .negative).add fmt u = u := by
  rcases u with _ | _ | (_ | _) | _ <;> rfl

theorem add_zero_of_ne {u : UnpackedFloat} (hu : u ≠ .zero .negative) (s : Sign) :
    u.add fmt (.zero s) = u := by
  rcases u with _ | _ | (_ | _) | _
  case zero.negative => exact absurd rfl hu
  case zero.positive => cases s <;> rfl
  all_goals rfl

theorem sub_self (s : Sign) {m : ℕ} {e : ℤ} (hm : 0 < m) :
    UnpackedFloat.sub fmt (.finite s m e hm) (.finite s m e hm) = .zero .positive := by
  show UnpackedFloat.normalize fmt (_ - _) _ _ = _
  rw [Int.sub_self]
  rfl

theorem positive_mul (s : Sign) : .positive * s = s := by
  cases s <;> rfl

theorem zero_le_neg {u : UnpackedFloat} (h : u.lt (.zero .positive) = true) :
    (UnpackedFloat.zero .positive).le u.neg = true := by
  rcases u with (_ | _) | _ | _ | ⟨_ | _, _⟩
  case infinity.negative | finite.negative => rfl
  all_goals cases h

theorem isFinite_of_infinity_le {u : UnpackedFloat}
    (h : (UnpackedFloat.infinity .positive).le u = true) : u.isFinite = false := by
  rcases u with _ | _ | _ | ⟨_ | _, _⟩
  case infinity => rfl
  all_goals cases h

/-- The number one of a format, with all its significand. -/
theorem one_mul {u : UnpackedFloat} (hu : ∀ s m e hm, u = .finite s m e hm → Canonical fmt m e) :
    .mul fmt (.finite .positive (2 ^ fmt.mantissaBitsWithoutImplicit)
      (-fmt.mantissaBitsWithoutImplicit) (Nat.two_pow_pos _)) u = u := by
  rcases u with s | _ | s | ⟨s, m, e, hm⟩
  · exact congrArg UnpackedFloat.infinity (positive_mul s)
  · rfl
  · exact congrArg UnpackedFloat.zero (positive_mul s)
  · show roundWithAccuracy fmt (.positive * s) (2 ^ _ * m) (-_ + e) .exact = _
    rw [positive_mul, mul_comm, neg_add_eq_sub]
    exact roundWithAccuracy_of_canonical s hm (hu s m e hm rfl) _

/-- The significand fits into the format, and the exponent is not less than the least. -/
def Bounded (fmt : Format) : UnpackedFloat → Prop
  | .finite _ m e _ => m.log2 ≤ fmt.mantissaBitsWithoutImplicit ∧ fmt.minExponent ≤ e
  | _ => True

theorem Bounded.pack_ne {u : UnpackedFloat} (hu : Bounded fmt u) {s : Sign} (hne : u ≠ .zero s) :
    pack fmt u ≠ packedZero fmt s := fun h => by
  have hnumber := congrArg (unpack fmt) h
  rw [unpack_packedZero] at hnumber
  rcases u with _ | _ | s' | ⟨s', m, e, hm⟩
  · cases (unpack_packedInfinity _).symm.trans hnumber
  · cases (unpack_packedNaN fmt).symm.trans hnumber
  · exact hne ((unpack_packedZero s').symm.trans hnumber)
  · exact pack_finite_ne_packedZero hu.1 hu.2 h

/-- The sum of two numbers that are not zero is rounded to a zero only if it is zero, and a
positive one; so only the sum of two negative zeros is a negative zero. -/
theorem Bounded.add {u v : UnpackedFloat} (hu : Bounded fmt u) (hv : Bounded fmt v)
    (hne : u ≠ .zero .negative) :
    Bounded fmt (u.add fmt v) ∧ u.add fmt v ≠ .zero .negative := by
  rcases u with s | _ | s | ⟨s, m, e, hm⟩ <;> rcases v with s' | _ | s' | ⟨s', m', e', hm'⟩
  case finite.finite =>
    have hround (s : Sign) {n : ℕ} (hn : 0 < n) :
        Bounded fmt (round fmt s n (min e e')) ∧ round fmt s n (min e e') ≠ .zero .negative := by
      obtain ⟨_, _, _, heq, hbounds⟩ := exists_round s hn (le_min hu.2 hv.2)
      rw [heq]
      exact ⟨hbounds, nofun⟩
    show Bounded fmt (UnpackedFloat.normalize fmt _ (min e e') .positive) ∧
      UnpackedFloat.normalize fmt _ (min e e') .positive ≠ _
    unfold UnpackedFloat.normalize
    split
    · next h =>
      rw [compare_lt_iff_lt] at h
      exact hround _ (by omega)
    · exact ⟨trivial, nofun⟩
    · next h =>
      rw [compare_gt_iff_gt] at h
      exact hround _ (by omega)
  case infinity.infinity => cases s <;> cases s' <;> exact ⟨trivial, nofun⟩
  case zero.zero =>
    cases s with
    | negative => exact absurd rfl hne
    | positive => cases s' <;> exact ⟨trivial, nofun⟩
  case zero.finite => exact ⟨hv, nofun⟩
  case finite.zero => exact ⟨hu, nofun⟩
  all_goals exact ⟨trivial, nofun⟩

end Binary

/-! ### Scalars of a format -/

/-- A type of scalars that are the numbers of a binary format. An operation unpacks its operands and
packs the rounded result. -/
structure Encoding (α : Type) [Scalar α] (fmt : Format) where
  bits : α → BitVec fmt.numBits
  injective : Function.Injective bits
  valid (x : α) : fmt.Valid (bits x)
  wide : 1 < fmt.exponentBits
  zero : bits 0 = packedZero fmt .positive
  one : unpack fmt (bits 1) = .finite .positive (2 ^ fmt.mantissaBitsWithoutImplicit)
    (-fmt.mantissaBitsWithoutImplicit) (Nat.two_pow_pos _)
  neg_one : unpack fmt (bits (-1)) = (unpack fmt (bits 1)).neg
  neg (x : α) : bits (-x) = pack fmt (unpack fmt (bits x)).neg
  add (x y : α) : bits (x + y) = pack fmt ((unpack fmt (bits x)).add fmt (unpack fmt (bits y)))
  sub (x y : α) : bits (x - y) = pack fmt ((unpack fmt (bits x)).sub fmt (unpack fmt (bits y)))
  mul (x y : α) : bits (x * y) = pack fmt ((unpack fmt (bits x)).mul fmt (unpack fmt (bits y)))
  beq (x y : α) : (x == y) = (unpack fmt (bits x)).beq (unpack fmt (bits y))
  lt (x y : α) : x < y ↔ (unpack fmt (bits x)).lt (unpack fmt (bits y)) = true

namespace Encoding

variable {α : Type} [Scalar α] {fmt : Format} (E : Encoding α fmt) {x y z : α}

/-- The number that a scalar is. -/
def number (x : α) : UnpackedFloat := unpack fmt (E.bits x)

theorem pack_number (x : α) : pack fmt (E.number x) = E.bits x :=
  Binary.pack_unpack E.wide (E.valid x)

theorem eq_of_number {u : UnpackedFloat} (hx : E.bits x = pack fmt u) (hy : E.number y = u) :
    x = y :=
  E.injective (by rw [hx, ← hy, pack_number])

theorem number_zero : E.number 0 = .zero .positive := by
  rw [number, E.zero, Binary.unpack_packedZero]

theorem number_of_zero {s : Sign} (h : E.bits x = packedZero fmt s) : E.number x = .zero s := by
  rw [number, h, Binary.unpack_packedZero]

theorem canonical_number (x : α) (s : Sign) (m : ℕ) (e : ℤ) (hm : 0 < m)
    (h : E.number x = .finite s m e hm) : Binary.Canonical fmt m e :=
  Binary.canonical_unpack h

theorem bounded_number (x : α) : Binary.Bounded fmt (E.number x) := by
  cases h : E.number x with
  | finite s m e hm =>
    obtain ⟨hmin, hlog, -⟩ := Binary.canonical_iff.mp (E.canonical_number x s m e hm h)
    exact ⟨hlog, hmin⟩
  | _ => trivial

theorem isNaN_iff : isNaN x = true ↔ E.number x = .notANumber := by
  have hplace : isNaN x = !(place (E.number x)).isSome := by
    rw [isNaN, E.beq, beq_self_place, number]
  rw [hplace]
  rcases E.number x with (_ | _) | _ | _ | ⟨_ | _, _⟩ <;> simp [place]

theorem isNaN_of_bits {u : UnpackedFloat} (h : E.bits x = pack fmt u) (hu : u = .notANumber) :
    isNaN x = true := by
  subst hu
  rw [E.isNaN_iff, number, h]
  exact Binary.unpack_packedNaN fmt

theorem isFinite_eq : isFinite x = (E.number x).isFinite := by
  have hsub : E.bits (x - x) = pack fmt ((E.number x).sub fmt (E.number x)) := E.sub x x
  have hzero (h : (E.number x).sub fmt (E.number x) = .zero .positive) : isNaN (x - x) = false := by
    rw [h] at hsub
    rw [← Bool.not_eq_true, E.isNaN_iff, E.number_of_zero hsub]
    exact nofun
  rw [isFinite]
  cases hx : E.number x with
  | infinity s =>
    rw [E.isNaN_of_bits hsub (by rw [hx]; cases s <;> rfl)]
    rfl
  | notANumber =>
    rw [E.isNaN_of_bits hsub (by rw [hx]; rfl)]
    rfl
  | zero s =>
    rw [hzero (by rw [hx]; cases s <;> rfl)]
    rfl
  | finite s m e hm =>
    rw [hzero (by rw [hx]; exact Binary.sub_self s hm)]
    rfl

theorem beq_zero_iff : (z == 0) = true ↔ ∃ s, E.number z = .zero s := by
  have hcompare : (z == 0) = (E.number z).beq (.zero .positive) := by
    rw [← E.number_zero, E.beq, number, number]
  rw [hcompare]
  rcases E.number z with (_ | _) | _ | _ | ⟨_ | _, _⟩ <;>
    simp [UnpackedFloat.beq, UnpackedFloat.compare]

include E in
theorem absorbing : AbsorbingScalar α where
  isNaN_neg {x} h := by
    rw [E.isNaN_iff] at h
    exact E.isNaN_of_bits (E.neg x) (congrArg UnpackedFloat.neg h)
  isNaN_add {x y} h := by
    refine E.isNaN_of_bits (E.add x y) ?_
    rcases h with h | h
    · exact congrArg (UnpackedFloat.add fmt · _) (E.isNaN_iff.mp h)
    · exact (congrArg (UnpackedFloat.add fmt _) (E.isNaN_iff.mp h)).trans (Binary.add_notANumber _)
  isNaN_sub {x y} h := by
    refine E.isNaN_of_bits (E.sub x y) ?_
    rcases h with h | h
    · exact congrArg (UnpackedFloat.sub fmt · _) (E.isNaN_iff.mp h)
    · exact (congrArg (UnpackedFloat.sub fmt _) (E.isNaN_iff.mp h)).trans (Binary.sub_notANumber _)
  isNaN_mul {x y} h := by
    refine E.isNaN_of_bits (E.mul x y) ?_
    rcases h with h | h
    · exact congrArg (UnpackedFloat.mul fmt · _) (E.isNaN_iff.mp h)
    · exact (congrArg (UnpackedFloat.mul fmt _) (E.isNaN_iff.mp h)).trans (Binary.mul_notANumber _)

/-- The positive zero can be added to any scalar but the negative zero. -/
theorem add_zero_iff : x + 0 = x ↔ E.number x ≠ .zero .negative := by
  have hbits : E.bits (x + 0) = pack fmt ((E.number x).add fmt (.zero .positive)) := by
    rw [← E.number_zero, E.add, number, number]
  constructor
  · intro h hx
    rw [hx] at hbits
    have hpositive : E.number (x + 0) = .zero .positive := E.number_of_zero hbits
    rw [h, hx] at hpositive
    cases hpositive
  · intro hx
    rw [Binary.add_zero_of_ne hx] at hbits
    exact E.eq_of_number hbits rfl

theorem number_add_ne (hx : E.number x ≠ .zero .negative) (y : α) :
    E.number (x + y) ≠ .zero .negative := fun h => by
  obtain ⟨hbounded, hne⟩ := (E.bounded_number x).add (E.bounded_number y) hx
  have hpack := E.pack_number (x + y)
  rw [h, E.add] at hpack
  exact hbounded.pack_ne hne hpack.symm

include E in
theorem one_mul (x : α) : 1 * x = x := by
  refine E.eq_of_number (u := E.number x) ?_ rfl
  rw [E.mul, E.one]
  exact congrArg (pack fmt) (Binary.one_mul (E.canonical_number x))

include E in
theorem neutralZero : NeutralZero α where
  sub_zero x := by
    refine E.eq_of_number (E.sub x 0) ?_
    rw [← number, ← number, E.number_zero, Binary.sub_zero_positive]
  neg_one_mul_zero_add x := by
    have hzero : E.number (-1 * 0) = .zero .negative := by
      refine E.number_of_zero ((E.mul (-1) 0).trans ?_)
      rw [E.neg_one, E.one, ← number, E.number_zero]
      rfl
    refine E.eq_of_number (E.add (-1 * 0) (1 * x)) ?_
    rw [← number, ← number, hzero, E.one_mul, Binary.zero_negative_add]
  zero_add_zero := E.add_zero_iff.mpr (by rw [E.number_zero]; exact nofun)
  add_add_zero y hx := E.add_zero_iff.mpr (E.number_add_ne (E.add_zero_iff.mp hx) y)
  add_eq_of_beq_zero {x z} hx hz := by
    obtain ⟨s, hs⟩ := E.beq_zero_iff.mp hz
    refine E.eq_of_number (E.add x z) ?_
    rw [← number, ← number, hs, Binary.add_zero_of_ne (E.add_zero_iff.mp hx)]
  mul_beq_zero {x z} hx hz := by
    obtain ⟨s, hs⟩ := E.beq_zero_iff.mp hz
    have hbits : E.bits (x * z) = pack fmt ((E.number x).mul fmt (.zero s)) := hs ▸ E.mul x z
    rw [E.isFinite_eq] at hx
    cases hu : E.number x with
    | zero s' | finite s' m e hm =>
      rw [hu] at hbits
      exact E.beq_zero_iff.mpr ⟨s' * s, E.number_of_zero hbits⟩
    | infinity _ | notANumber =>
      rw [hu] at hx
      cases hx
  isNaN_mul_of_beq_zero {x z} hx hz := by
    obtain ⟨s, hs⟩ := E.beq_zero_iff.mp hz
    have hbits : E.bits (x * z) = pack fmt ((E.number x).mul fmt (.zero s)) := hs ▸ E.mul x z
    rw [E.isFinite_eq] at hx
    refine E.isNaN_of_bits hbits ?_
    cases hu : E.number x with
    | zero _ | finite _ _ _ _ =>
      rw [hu] at hx
      cases hx
    | infinity _ | notANumber => rfl
  not_lt_of_beq_zero {z} hz := by
    obtain ⟨s, hs⟩ := E.beq_zero_iff.mp hz
    rw [E.lt, E.lt, ← number, ← number, E.number_zero, hs]
    exact ⟨nofun, nofun⟩

theorem number_neg (x : α) : E.number (-x) = (E.number x).neg := by
  have hpack : unpack fmt (pack fmt (E.number x).neg) =
      (unpack fmt (pack fmt (E.number x))).neg := Binary.unpack_pack_neg _
  rw [E.pack_number] at hpack
  exact (congrArg (unpack fmt) (E.neg x)).trans hpack

theorem lt_zero_iff : x < 0 ↔ (E.number x).lt (.zero .positive) = true := by
  rw [← E.number_zero]
  exact E.lt x 0

theorem number_magnitude_of_infinity {s : Sign} (h : E.number x = .infinity s) :
    E.number (magnitude x) = .infinity .positive := by
  unfold magnitude
  split
  · next hx =>
    rw [E.lt_zero_iff, h] at hx
    rw [E.number_neg, h]
    cases s with
    | negative => rfl
    | positive => cases hx
  · next hx =>
    rw [E.lt_zero_iff, h] at hx
    rw [h]
    cases s with
    | negative => exact absurd rfl hx
    | positive => rfl

include E in
theorem signed (hle : ∀ x y : α, x ≤ y ↔ (E.number x).le (E.number y) = true) :
    SignedScalar α where
  isNaN_zero := by
    rw [← Bool.not_eq_true, E.isNaN_iff, E.number_zero]
    exact nofun
  zero_le_neg {x} h := by
    rw [E.lt_zero_iff] at h
    rw [hle, E.number_zero, E.number_neg]
    exact Binary.zero_le_neg h
  isFinite_of_magnitude_le {x y} h hy := by
    rw [hle] at h
    rw [E.isFinite_eq] at hy ⊢
    cases hx : E.number x with
    | zero _ | finite _ _ _ _ => rfl
    | infinity s =>
      rw [E.number_magnitude_of_infinity hx] at h
      rw [Binary.isFinite_of_infinity_le h] at hy
      cases hy
    | notANumber =>
      have hnan : E.number (magnitude x) = .notANumber := by
        unfold magnitude
        split
        · rw [E.number_neg, hx]
          rfl
        · exact hx
      rw [hnan] at h
      cases h

end Encoding

def Encoding.float : Encoding Float .binary64 where
  bits x := x.toModel.toBits.toBitVec
  injective := by
    rintro ⟨⟨⟨x⟩, hx⟩⟩ ⟨⟨⟨y⟩, hy⟩⟩ h
    obtain rfl : x = y := h
    rfl
  valid x := x.toModel.valid
  wide := by decide
  zero := by decide +kernel
  one := rfl
  neg_one := rfl
  neg _ := rfl
  add _ _ := rfl
  sub _ _ := rfl
  mul _ _ := rfl
  beq _ _ := rfl
  lt _ _ := decide_eq_true_iff

instance : AbsorbingScalar Float := Encoding.float.absorbing

instance : NeutralZero Float := Encoding.float.neutralZero

instance : SignedScalar Float := Encoding.float.signed fun _ _ => decide_eq_true_iff

def Encoding.float32 : Encoding Float32 .binary32 where
  bits x := x.toModel.toBits.toBitVec
  injective := by
    rintro ⟨⟨⟨x⟩, hx⟩⟩ ⟨⟨⟨y⟩, hy⟩⟩ h
    obtain rfl : x = y := h
    rfl
  valid x := x.toModel.valid
  wide := by decide
  zero := by decide +kernel
  one := rfl
  neg_one := rfl
  neg _ := rfl
  add _ _ := rfl
  sub _ _ := rfl
  mul _ _ := rfl
  beq _ _ := rfl
  lt _ _ := decide_eq_true_iff

instance : AbsorbingScalar Float32 := Encoding.float32.absorbing

instance : NeutralZero Float32 := Encoding.float32.neutralZero

instance : SignedScalar Float32 := Encoding.float32.signed fun _ _ => decide_eq_true_iff

end DualRecovery
