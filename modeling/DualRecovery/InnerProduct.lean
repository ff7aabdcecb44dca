import DualRecovery.ConstraintSet
import DualRecovery.Vector.Basic

/-! The inner product of the space a set lies in. On packed triangles an entry off the diagonal
stands for two entries of the matrix and counts twice. -/

namespace DualRecovery

open Scalar

inductive InnerProduct where
  | euclidean
  /-- `offset` plain entries, then a packed triangle. -/
  | triangle (side offset : Nat)
  deriving DecidableEq, Repr

/-- The inner product of the space of the set. -/
def ConstraintSet.innerProduct {α : Type} : ConstraintSet α → InnerProduct
  | .psdTriangleCone side => .triangle side 0
  | .rootDetTriangleCone side => .triangle side 1
  | .logDetTriangleCone side => .triangle side 2
  | _ => .euclidean

variable {α : Type} [Scalar α]

/-- What two rows at the same place of two triangles contribute to the product. -/
def TriangleRow.dot (p q : TriangleRow α) : α :=
  two * dotEntries p.offDiagonal q.offDiagonal + p.diagonal * q.diagonal

/-- The triangle of side `side` at the front of the list with the entries off the diagonal halved,
`i` of them in the next row. What follows the triangle is kept, and the last diagonal entry may be
missing. -/
def halveOffDiagonal : (side i : Nat) → List α → Except Fault (List α)
  | 0, _, xs => .ok xs
  | side + 1, i, xs =>
    if (xs.take i).length < i then .error (.outOfRange i xs.length)
    else
      match xs.drop i with
      | [] => ((xs.take i).map (· * half) ++ ·) <$> halveOffDiagonal side (i + 1) []
      | d :: rest =>
        ((xs.take i).map (· * half) ++ d :: ·) <$> halveOffDiagonal side (i + 1) rest

namespace InnerProduct

/-- The product of two lists of equal lengths, that of the space for triangles. -/
def dot (p : InnerProduct) (x y : List α) : Except Fault α :=
  match p with
  | euclidean => DualRecovery.dot x y
  | triangle side offset =>
    if x.length ≠ y.length then .error (.lengthMismatch x.length y.length)
    -- where the number of entries is no word, no list in memory is as long, and this is the fault
    else if x.length ≠ offset + triangularNumber side then
      .error (.lengthMismatch x.length (offset + triangularNumber side))
    else
      .ok <| (List.zipWith TriangleRow.dot (triangleRows side (x.drop offset))
        (triangleRows side (y.drop offset))).foldl (· + ·)
        (dotEntries (x.take offset) (y.take offset))

/-- The vector that represents the functional `x ↦ a · x`: its product with `x` is the ordinary dot
product of `a` and `x`, for every `x` of the space. -/
def represent (p : InnerProduct) (a : List α) : Except Fault (List α) :=
  match p with
  | euclidean => .ok a
  | triangle side offset =>
    if a.length < offset then .error (.outOfRange offset a.length)
    else (a.take offset ++ ·) <$> halveOffDiagonal side 0 (a.drop offset)

end InnerProduct

end DualRecovery
