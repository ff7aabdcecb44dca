import DualRecovery.Decimal.Binary
import DualRecovery.Decimal.Shortest

/-! The text of a floating-point number: the fewest digits that read back, without an exponent. -/

namespace DualRecovery

/-- The digits with a point or zeros, as the exponent demands. -/
def Decimal.positional (d : Decimal) : String :=
  let digits := d.digits.repr
  if 0 ≤ d.exponent then digits ++ String.ofList (List.replicate d.exponent.toNat '0')
  else
    let places := (-d.exponent).toNat
    let padded := List.replicate (places + 1 - digits.length) '0' ++ digits.toList
    String.ofList (padded.take (padded.length - places)) ++ "." ++
      String.ofList (padded.drop (padded.length - places))

/-- Enough grids for a format: those of one to as many digits as tell its numbers apart, and one
before them. -/
def BinaryFormat.gridCount (fmt : BinaryFormat) : Nat := fmt.fractionBits / 3 + 4

def BinaryFormat.text (fmt : BinaryFormat) (bits : Nat) : String :=
  match fmt.decode bits with
  | .nan => "NaN"
  | .infinite negative => if negative then "-inf" else "inf"
  | .finite negative significand exponent narrowBelow =>
    (if negative then "-" else "") ++
      if significand = 0 then "0"
      else (Decimal.shortest fmt.gridCount significand exponent narrowBelow).positional

/-- Scalars with a decimal text. -/
class DecimalText (α : Type) where
  text : α → String

instance : DecimalText Float := ⟨fun x => BinaryFormat.binary64.text x.toBits.toNat⟩

instance : DecimalText Float32 := ⟨fun x => BinaryFormat.binary32.text x.toBits.toNat⟩

end DualRecovery
