/-! Scalars: the operations every computation of the library is written in, and the binary
floating-point formats that have them. -/

namespace DualRecovery

/-- A type of numbers, exact or rounded. No law is assumed: in a rounded format addition is not
associative, and a value that is no number differs from itself and is below nothing. -/
class Scalar (α : Type) extends Zero α, One α, Add α, Sub α, Mul α, Div α, Neg α, BEq α, LE α,
    LT α where
  decidableLE : DecidableLE α
  decidableLT : DecidableLT α

namespace Scalar

attribute [reducible] decidableLE decidableLT

-- Where a format has operations of its own, those are found before the ones it has as a scalar.
attribute [instance (50)] toZero toOne toAdd toSub toMul toDiv toNeg toBEq toLE toLT decidableLE
  decidableLT

instance : Scalar Float where
  zero := 0.0
  one := 1.0
  add := Float.add
  sub := Float.sub
  mul := Float.mul
  div := Float.div
  neg := Float.neg
  beq := Float.beq
  toLE := instLEFloat
  toLT := instLTFloat
  decidableLE := Float.decLe
  decidableLT := Float.decLt

instance : Scalar Float32 where
  zero := 0.0
  one := 1.0
  add := Float32.add
  sub := Float32.sub
  mul := Float32.mul
  div := Float32.div
  neg := Float32.neg
  beq := Float32.beq
  toLE := instLEFloat32
  toLT := instLTFloat32
  decidableLE := Float32.decLe
  decidableLT := Float32.decLt

variable {α : Type} [Scalar α]

def two : α := 1 + 1

def half : α := 1 / two

/-- A scalar that differs from itself is no number. -/
def isNaN (x : α) : Bool := !(x == x)

/-- The difference of an infinite scalar and itself is no number. -/
def isFinite (x : α) : Bool := !isNaN (x - x)

/-- The absolute value, up to the sign of a zero. -/
def magnitude (x : α) : α := if x < 0 then -x else x

/-- The larger of two scalars; a second one that does not compare is passed over. -/
def larger (x y : α) : α := if x < y then y else x

end Scalar

/-- Scalars with a square root. -/
class SquareRoot (α : Type) where
  sqrt : α → α

instance : SquareRoot Float := ⟨Float.sqrt⟩

instance : SquareRoot Float32 := ⟨Float32.sqrt⟩

/-- Scalars of one format taken to another: the same number if it exists there, else the nearest. -/
class Conversion (α β : Type) where
  convert : α → β

instance (α : Type) : Conversion α α := ⟨id⟩

instance : Conversion Float Float32 := ⟨Float.toFloat32⟩

instance : Conversion Float32 Float := ⟨Float32.toFloat⟩

end DualRecovery
