/-! Binary floating-point words, read as numbers of the form `significand * 2 ^ exponent`. -/

namespace DualRecovery

/-- An interchange format: a sign bit, the biased exponent, the fraction. -/
structure BinaryFormat where
  fractionBits : Nat
  exponentBits : Nat
  deriving DecidableEq, Repr

namespace BinaryFormat

def binary64 : BinaryFormat := ⟨52, 11⟩

def binary32 : BinaryFormat := ⟨23, 8⟩

/-- The exponent of the last place of the smallest numbers. -/
def minExponent (fmt : BinaryFormat) : Int :=
  2 - Nat.pow 2 (fmt.exponentBits - 1) - fmt.fractionBits

end BinaryFormat

/-- What a word stands for. -/
inductive BinaryNumber where
  | nan
  | infinite (negative : Bool)
  /-- `significand * 2 ^ exponent` in the format's spacing: where the numbers below are closer than
  those above, `narrowBelow` holds. -/
  | finite (negative : Bool) (significand : Nat) (exponent : Int) (narrowBelow : Bool)
  deriving DecidableEq, Repr

def BinaryFormat.decode (fmt : BinaryFormat) (bits : Nat) : BinaryNumber :=
  let fraction := bits % Nat.pow 2 fmt.fractionBits
  let biased := bits / Nat.pow 2 fmt.fractionBits % Nat.pow 2 fmt.exponentBits
  let negative := bits / Nat.pow 2 (fmt.fractionBits + fmt.exponentBits) % 2 == 1
  if biased = Nat.pow 2 fmt.exponentBits - 1 then
    if fraction = 0 then .infinite negative else .nan
  else if biased = 0 then .finite negative fraction fmt.minExponent false
  else
    .finite negative (Nat.pow 2 fmt.fractionBits + fraction) (fmt.minExponent + (biased - 1))
      (fraction == 0 && biased != 1)

end DualRecovery
