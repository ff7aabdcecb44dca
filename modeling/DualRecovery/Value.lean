import DualRecovery.Vector.Basic

/-! The value of a function, or the dual of a constraint: a number or a vector. -/

namespace DualRecovery

inductive Value (α : Type) where
  | scalar (x : α)
  | vector (xs : List α)
  deriving BEq, DecidableEq, Repr

namespace Value

variable {α : Type}

/-- The number of entries. -/
def length : Value α → Nat
  | scalar _ => 1
  | vector xs => xs.length

def isEmpty (v : Value α) : Bool := v.length == 0

def isScalar : Value α → Bool
  | scalar _ => true
  | vector _ => false

def scalar? : Value α → Option α
  | scalar x => some x
  | vector _ => none

def vector? : Value α → Option (List α)
  | scalar _ => none
  | vector xs => some xs

@[simp] theorem length_scalar (x : α) : (scalar x).length = 1 := rfl

@[simp] theorem length_vector (xs : List α) : (vector xs).length = xs.length := rfl

/-- The difference of two values of one shape. -/
def subtract [Scalar α] : Value α → Value α → Except Fault (Value α)
  | scalar a, scalar b => .ok (scalar (a - b))
  | vector a, vector b => vector <$> combine (-1) b 1 a
  | _, _ => .error .shapeMismatch

end Value

end DualRecovery
