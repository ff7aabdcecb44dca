import DualRecovery.Scalar
import DualRecovery.Failure
import DualRecovery.Vector.PairwiseSum

/-! Operations on vectors, given as the lists of their entries. Those that take two vectors fault
on different lengths. -/

namespace DualRecovery

open Scalar

variable {α : Type} [Scalar α]

/-- The sum of the entrywise products, over the length of the shorter list. -/
def dotEntries (x y : List α) : α := pairwiseSum (List.zipWith (· * ·) x y)

/-- `result`, for two lists of the same length. -/
def ofSameLength {β : Type} (x y : List α) (result : β) : Except Fault β :=
  if x.length = y.length then .ok result else .error (.lengthMismatch x.length y.length)

def dot (x y : List α) : Except Fault α := ofSameLength x y (dotEntries x y)

/-- The Euclidean distance. -/
def distance [SquareRoot α] (x y : List α) : Except Fault α :=
  ofSameLength x y (SquareRoot.sqrt
    (pairwiseSum (List.zipWith (fun a b => (a - b) * (a - b)) x y)))

/-- The largest magnitude of the entries from `bound` on. The first entry that is no number is the
answer. -/
def largestMagnitudeFrom (bound : α) : List α → α
  | [] => bound
  | x :: xs =>
    if isNaN (magnitude x) then magnitude x
    else largestMagnitudeFrom (larger bound (magnitude x)) xs

/-- The infinity norm. -/
def largestMagnitude (x : List α) : α := largestMagnitudeFrom 0 x

/-- The largest magnitude of an entrywise difference. A difference that is no number is passed
over. -/
def largestDifference (x y : List α) : Except Fault α :=
  ofSameLength x y
    ((List.zipWith (fun a b => magnitude (a - b)) x y).foldl larger 0)

/-- The vector `a * y + b * x`. -/
def combine (a : α) (y : List α) (b : α) (x : List α) : Except Fault (List α) :=
  ofSameLength x y (List.zipWith (fun yᵢ xᵢ => a * yᵢ + b * xᵢ) y x)

/-- The vector with `value` added to the entry at `position`. -/
def addAt (x : List α) (position : Nat) (value : α) : Except Fault (List α) :=
  if position < x.length then .ok (x.modify position (· + value))
  else .error (.outOfRange position x.length)

omit [Scalar α] in
theorem ofSameLength_of_eq {β : Type} {x y : List α} (h : x.length = y.length) (result : β) :
    ofSameLength x y result = .ok result := if_pos h

theorem addAt_of_lt {x : List α} {position : Nat} (h : position < x.length) (value : α) :
    addAt x position value = .ok (x.modify position (· + value)) := if_pos h

end DualRecovery
