import DualRecovery.ModelFunction.Basic
import DualRecovery.QueryError

/-! The value of a function, given a lookup of the values of its variables. The first lookup that
fails decides the error; a term in a row that the function does not have is a fault, found before
its variables are looked up. -/

namespace DualRecovery

open Scalar

/-- The values of variables, as far as they are known. -/
abbrev Lookup (α : Type) := VariableIndex → Except QueryError α

variable {α : Type} [Scalar α]

def AffineTerm.evaluate (t : AffineTerm α) (lookup : Lookup α) : Except QueryError α := do
  let x ← lookup t.var
  return t.coefficient * x

def QuadraticTerm.evaluate (t : QuadraticTerm α) (lookup : Lookup α) : Except QueryError α := do
  let x ← lookup t.first
  if t.first = t.second then
    return t.coefficient * x * x / two
  else
    let y ← lookup t.second
    return t.coefficient * x * y

def ScalarAffine.evaluate (f : ScalarAffine α) (lookup : Lookup α) : Except QueryError α := do
  let products ← f.terms.mapM (·.evaluate lookup)
  return pairwiseSum products + f.constant

/-- The affine terms are looked up and added before the quadratic ones. -/
def ScalarQuadratic.evaluate (f : ScalarQuadratic α) (lookup : Lookup α) :
    Except QueryError α := do
  let affine ← f.affine.mapM (·.evaluate lookup)
  let quadratic ← f.quadratic.mapM (·.evaluate lookup)
  return pairwiseSum (affine ++ quadratic) + f.constant

/-- Adds the values of the terms, in order, to the entries of their rows. -/
def addRows {τ : Type} (evaluate : τ → Except QueryError α) (out : List α)
    (terms : List (RowTerm τ)) : Except (Failure QueryError) (List α) :=
  terms.foldlM (fun out t =>
    if t.row < out.length then do
      let x ← orError (evaluate t.term)
      return out.modify t.row (· + x)
    else .error (.fault (.outOfRange t.row out.length))) out

def VectorAffine.evaluate (f : VectorAffine α) (lookup : Lookup α) :
    Except (Failure QueryError) (List α) :=
  addRows (·.evaluate lookup) f.constants f.terms

/-- The affine terms are looked up and added before the quadratic ones. -/
def VectorQuadratic.evaluate (f : VectorQuadratic α) (lookup : Lookup α) :
    Except (Failure QueryError) (List α) := do
  let out ← addRows (·.evaluate lookup) f.constants f.affine
  addRows (·.evaluate lookup) out f.quadratic

def ModelFunction.evaluate (f : ModelFunction α) (lookup : Lookup α) :
    Except (Failure QueryError) (Value α) :=
  match f with
  | .singleVariable v => .scalar <$> orError (lookup v)
  | .vectorOfVariables vs => .vector <$> orError (vs.mapM lookup)
  | .scalarAffine f => .scalar <$> orError (f.evaluate lookup)
  | .vectorAffine f => .vector <$> f.evaluate lookup
  | .scalarQuadratic f => .scalar <$> orError (f.evaluate lookup)
  | .vectorQuadratic f => .vector <$> f.evaluate lookup

end DualRecovery
