import DualRecovery.Backend
import DualRecovery.Trace.Traced

/-! The duals that a backend reports, checked for their shapes. Every query for one is logged. -/

namespace DualRecovery

namespace Backend

open Traced

variable {α : Type} (b : Backend α) (r : Nat)

def reportedDual (ci : ConstraintIndex) : Traced α (Value α) := do
  note (.query (.constraintDual ci r))
  ofQuery (b.dual ci r)

/-- The number that a value is, if it is a dual of `ci`. -/
def asScalarDual (ci : ConstraintIndex) : Value α → Traced α α
  | .scalar y => pure y
  | .vector ys => fail (.dimensionMismatch ci 1 ys.length)

/-- The vector of `dimension` entries that a value is, if it is a dual of `ci`. -/
def asVectorDual (ci : ConstraintIndex) (dimension : Nat) (y : Value α) : Traced α (List α) :=
  match y with
  | .vector ys =>
    if ys.length = dimension then pure ys
    else fail (.dimensionMismatch ci dimension y.length)
  | .scalar _ => fail (.dimensionMismatch ci dimension y.length)

def reportedScalarDual (ci : ConstraintIndex) : Traced α α := do
  let y ← b.reportedDual r ci
  asScalarDual ci y

def reportedVectorDual (ci : ConstraintIndex) (dimension : Nat) : Traced α (List α) := do
  let y ← b.reportedDual r ci
  asVectorDual ci dimension y

end Backend

end DualRecovery
