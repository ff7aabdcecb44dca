/-! The shortest decimal that reads back as a given binary number. The numbers that read back form
an interval around it; of the decimal grids from coarse to fine, the first with a point in the
interval has the shortest one. -/

namespace DualRecovery

/-- The number `digits * 10 ^ exponent`. -/
structure Decimal where
  digits : Nat
  exponent : Int
  deriving DecidableEq, Repr

/-- A positive number `value` and the bounds of what rounds to it, all in units of `num / den`. The
bounds round to it too if `closed` holds. -/
structure RoundingInterval where
  value : Nat
  lower : Nat
  upper : Nat
  closed : Bool
  num : Nat
  den : Nat
  deriving DecidableEq, Repr

namespace RoundingInterval

/-- The interval of `significand * 2 ^ exponent`, in quarters of its last place: half a place to
both sides, below a power of two that is narrow below a quarter. -/
def ofBinary (significand : Nat) (exponent : Int) (narrowBelow : Bool) : RoundingInterval where
  value := 4 * significand
  lower := 4 * significand - if narrowBelow then 1 else 2
  upper := 4 * significand + 2
  closed := significand % 2 == 0
  num := Nat.pow 2 (exponent - 2).toNat
  den := Nat.pow 2 (2 - exponent).toNat

/-- The interval in units of `10 ^ k`. -/
def scale (i : RoundingInterval) (k : Int) : RoundingInterval :=
  { i with num := i.num * Nat.pow 10 (-k).toNat, den := i.den * Nat.pow 10 k.toNat }

/-- Whether `n` units of the grid lie in the interval. -/
def contains (i : RoundingInterval) (n : Nat) : Bool :=
  if i.closed then i.lower * i.num ≤ n * i.den && n * i.den ≤ i.upper * i.num
  else i.lower * i.num < n * i.den && n * i.den < i.upper * i.num

/-- The point of the grid in the interval that is nearest to the value, the upper one of two that
are equally near. Only the two next to the value can be nearest. -/
def nearest? (i : RoundingInterval) : Option Nat :=
  let below := i.value * i.num / i.den
  let above := below + 1
  match i.contains below, i.contains above with
  | true, true =>
    if i.value * i.num - below * i.den < above * i.den - i.value * i.num then some below
    else some above
  | true, false => some below
  | false, true => some above
  | false, false => none

/-- The first point found on the grids `10 ^ k`, `10 ^ (k - 1)` and on, at most `count` of them
before the last one, where the value is cut off. -/
def search (i : RoundingInterval) : (count : Nat) → (k : Int) → Decimal
  | 0, k => ⟨(i.scale k).value * (i.scale k).num / (i.scale k).den, k⟩
  | count + 1, k =>
    match (i.scale k).nearest? with
    | some n => ⟨n, k⟩
    | none => i.search count (k - 1)

/-- A grid with at most one point up to the value. -/
def coarsestGrid (i : RoundingInterval) : Int :=
  ((i.value * i.num).repr.length : Int) - i.den.repr.length

end RoundingInterval

/-- The shortest decimal that rounds to `significand * 2 ^ exponent`, found on one of `count` grids;
of several the nearest. -/
def Decimal.shortest (count significand : Nat) (exponent : Int) (narrowBelow : Bool) : Decimal :=
  let i := RoundingInterval.ofBinary significand exponent narrowBelow
  i.search count i.coarsestGrid

end DualRecovery
