import DualRecovery.Index
import DualRecovery.Value

/-! The functions that a model is made of: variables, affine and quadratic functions, each with a
number or a vector as its value. Terms may repeat a variable; their coefficients add up. -/

namespace DualRecovery

/-- The term `coefficient * var`. -/
structure AffineTerm (α : Type) where
  coefficient : α
  var : VariableIndex
  deriving BEq, DecidableEq, Repr

/-- The term `coefficient * first * second`, halved if the variables are the same: a list of terms
is the lower triangle of the matrix `Q` of `xᵀQx / 2`. -/
structure QuadraticTerm (α : Type) where
  coefficient : α
  first : VariableIndex
  second : VariableIndex
  deriving BEq, DecidableEq, Repr

/-- A term of one row of a vector function. -/
structure RowTerm (τ : Type) where
  row : Nat
  term : τ
  deriving BEq, DecidableEq, Repr

structure ScalarAffine (α : Type) where
  terms : List (AffineTerm α)
  constant : α
  deriving BEq, DecidableEq, Repr

/-- The number of rows is the number of constants. -/
structure VectorAffine (α : Type) where
  terms : List (RowTerm (AffineTerm α))
  constants : List α
  deriving BEq, DecidableEq, Repr

structure ScalarQuadratic (α : Type) where
  quadratic : List (QuadraticTerm α)
  affine : List (AffineTerm α)
  constant : α
  deriving BEq, DecidableEq, Repr

/-- The number of rows is the number of constants. -/
structure VectorQuadratic (α : Type) where
  quadratic : List (RowTerm (QuadraticTerm α))
  affine : List (RowTerm (AffineTerm α))
  constants : List α
  deriving BEq, DecidableEq, Repr

inductive ModelFunction (α : Type) where
  | singleVariable (v : VariableIndex)
  | vectorOfVariables (vs : List VariableIndex)
  | scalarAffine (f : ScalarAffine α)
  | vectorAffine (f : VectorAffine α)
  | scalarQuadratic (f : ScalarQuadratic α)
  | vectorQuadratic (f : VectorQuadratic α)
  deriving BEq, DecidableEq, Repr

variable {α : Type}

namespace AffineTerm

def mentions (t : AffineTerm α) (v : VariableIndex) : Bool := t.var == v

end AffineTerm

namespace QuadraticTerm

def mentions (t : QuadraticTerm α) (v : VariableIndex) : Bool := t.first == v || t.second == v

end QuadraticTerm

namespace ModelFunction

def kind : ModelFunction α → FunctionKind
  | singleVariable _ => .singleVariable
  | vectorOfVariables _ => .vectorOfVariables
  | scalarAffine _ => .scalarAffine
  | vectorAffine _ => .vectorAffine
  | scalarQuadratic _ => .scalarQuadratic
  | vectorQuadratic _ => .vectorQuadratic

/-- The number of entries of a value. -/
def dimension : ModelFunction α → Nat
  | singleVariable _ | scalarAffine _ | scalarQuadratic _ => 1
  | vectorOfVariables vs => vs.length
  | vectorAffine f => f.constants.length
  | vectorQuadratic f => f.constants.length

/-- The value at the origin. -/
def constant [Zero α] : ModelFunction α → Value α
  | singleVariable _ => .scalar 0
  | vectorOfVariables vs => .vector (List.replicate vs.length 0)
  | scalarAffine f => .scalar f.constant
  | vectorAffine f => .vector f.constants
  | scalarQuadratic f => .scalar f.constant
  | vectorQuadratic f => .vector f.constants

/-- Whether the variable stands anywhere in the function. -/
def mentions : ModelFunction α → VariableIndex → Bool
  | singleVariable w, v => w == v
  | vectorOfVariables vs, v => vs.any (· == v)
  | scalarAffine f, v => f.terms.any (·.mentions v)
  | vectorAffine f, v => f.terms.any (·.term.mentions v)
  | scalarQuadratic f, v => f.affine.any (·.mentions v) || f.quadratic.any (·.mentions v)
  | vectorQuadratic f, v => f.affine.any (·.term.mentions v) || f.quadratic.any (·.term.mentions v)

/-- All places of variables, those of quadratic terms before those of affine terms. -/
def occurrences : ModelFunction α → List VariableIndex
  | singleVariable v => [v]
  | vectorOfVariables vs => vs
  | scalarAffine f => f.terms.map (·.var)
  | vectorAffine f => f.terms.map (·.term.var)
  | scalarQuadratic f => f.quadratic.flatMap (fun t => [t.first, t.second]) ++ f.affine.map (·.var)
  | vectorQuadratic f =>
    f.quadratic.flatMap (fun t => [t.term.first, t.term.second]) ++ f.affine.map (·.term.var)

/-- The variables, each once, in the order in which they first occur. -/
def distinctVariables (f : ModelFunction α) : List VariableIndex := f.occurrences.eraseDups

/-- The rows of the terms. -/
def rows : ModelFunction α → List Nat
  | vectorAffine f => f.terms.map (·.row)
  | vectorQuadratic f => f.quadratic.map (·.row) ++ f.affine.map (·.row)
  | _ => []

theorem length_constant [Zero α] (f : ModelFunction α) : f.constant.length = f.dimension := by
  cases f <;> simp [constant, dimension]

end ModelFunction

end DualRecovery
