import DualRecovery.Kind

/-! References to variables and constraints, their order and their texts. -/

namespace DualRecovery

structure VariableIndex where
  number : Nat
  deriving DecidableEq, Repr

/-- The constraints with functions of one kind in sets of one tag. -/
structure Family where
  kind : FunctionKind
  tag : SetTag
  deriving DecidableEq, Repr

/-- A reference to a constraint carries its family: with equal numbers and different families two
mentions differ. -/
structure ConstraintIndex where
  family : Family
  number : Nat
  deriving DecidableEq, Repr

namespace VariableIndex

def text (v : VariableIndex) : String := "x[" ++ v.number.repr ++ "]"

def sort (vs : List VariableIndex) : List VariableIndex :=
  vs.mergeSort fun v w => v.number ≤ w.number

end VariableIndex

namespace Family

def text (f : Family) : String := f.kind.name ++ "-in-" ++ f.tag.name

end Family

namespace ConstraintIndex

def text (ci : ConstraintIndex) : String := ci.family.text ++ "[" ++ ci.number.repr ++ "]"

/-- References are ordered by kind, then by tag, then by number. -/
instance : Ord ConstraintIndex where
  compare a b :=
    (compare a.family.kind.rank b.family.kind.rank).then <|
      (compare a.family.tag.rank b.family.tag.rank).then <| compare a.number b.number

def sort (cis : List ConstraintIndex) : List ConstraintIndex :=
  cis.mergeSort fun a b => (compare a b).isLE

end ConstraintIndex

end DualRecovery
