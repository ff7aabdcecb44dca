import DualRecovery.Proofs.Arithmetic
import DualRecovery.Proofs.ModelFunction.Shape

/-! What constants have to do with the values of functions. A constant is added to the sum of the
terms, or the terms of a row to the constant, in the order of the terms. Taking it off again gives
back what the terms alone come to if the arithmetic is exact, but not if it rounds. -/

namespace DualRecovery

open Scalar

variable {α : Type} [Scalar α] {lookup : Lookup α}

/-! ### The terms alone -/

/-- The values of the terms with their rows. -/
def rowValues {τ : Type} (evaluate : τ → Except QueryError α) (terms : List (RowTerm τ)) :
    Except QueryError (List (ℕ × α)) :=
  terms.mapM fun t => (t.row, ·) <$> evaluate t.term

/-- The values in row `k`, in order, added to `c`. -/
def addOnto (values : List (ℕ × α)) (k : ℕ) (c : α) : α :=
  ((values.filter (·.1 = k)).map (·.2)).foldl (· + ·) c

theorem addOnto_append (values values' : List (ℕ × α)) (k : ℕ) (c : α) :
    addOnto (values ++ values') k c = addOnto values' k (addOnto values k c) := by
  simp [addOnto]

theorem mapIdx_addOnto_cons (out : List α) (v : ℕ × α) (values : List (ℕ × α)) :
    out.mapIdx (addOnto (v :: values)) =
      (out.modify v.1 (· + v.2)).mapIdx (addOnto values) := by
  refine List.ext_getElem (by simp) fun k hk hk' => ?_
  rw [List.getElem_mapIdx, List.getElem_mapIdx, List.getElem_modify, addOnto, addOnto]
  by_cases h : v.1 = k
  · simp [h]
  · simp [h]

/-- Which terms are known does not depend on the entries that they are added to. -/
theorem addRows_eq {τ : Type} (evaluate : τ → Except QueryError α) {out : List α}
    {terms : List (RowTerm τ)} (hrow : ∀ t ∈ terms, t.row < out.length) :
    addRows evaluate out terms =
      (fun values => out.mapIdx (addOnto values)) <$> orError (rowValues evaluate terms) := by
  -- Each term changes the entries for those after it, so the statement is for all entries.
  induction terms generalizing out with
  | nil =>
    refine congrArg Except.ok (List.ext_getElem (by simp) fun k hk hk' => ?_)
    rw [List.getElem_mapIdx]
    rfl
  | cons t terms ih =>
    rw [List.forall_mem_cons] at hrow
    have hmodified (x : α) : ∀ u ∈ terms, u.row < (out.modify t.row (· + x)).length := by
      simpa using hrow.2
    have ih' (x : α) := ih (hmodified x)
    unfold addRows rowValues at ih' ⊢
    rw [List.foldlM_cons, if_pos hrow.1, List.mapM_cons]
    cases evaluate t.term with
    | error e => rfl
    | ok x =>
      refine (ih' x).trans ?_
      cases terms.mapM fun t => (t.row, ·) <$> evaluate t.term with
      | error e => rfl
      | ok values => exact congrArg Except.ok (mapIdx_addOnto_cons out (t.row, x) values).symm

def ScalarAffine.sum (f : ScalarAffine α) (lookup : Lookup α) : Except QueryError α :=
  pairwiseSum <$> f.terms.mapM (·.evaluate lookup)

def ScalarQuadratic.sum (f : ScalarQuadratic α) (lookup : Lookup α) : Except QueryError α := do
  let affine ← f.affine.mapM (·.evaluate lookup)
  let quadratic ← f.quadratic.mapM (·.evaluate lookup)
  return pairwiseSum (affine ++ quadratic)

def VectorAffine.rowValues (f : VectorAffine α) (lookup : Lookup α) :
    Except QueryError (List (ℕ × α)) :=
  DualRecovery.rowValues (·.evaluate lookup) f.terms

def VectorQuadratic.rowValues (f : VectorQuadratic α) (lookup : Lookup α) :
    Except QueryError (List (ℕ × α)) := do
  let affine ← DualRecovery.rowValues (·.evaluate lookup) f.affine
  let quadratic ← DualRecovery.rowValues (·.evaluate lookup) f.quadratic
  return affine ++ quadratic

theorem ScalarAffine.evaluate_eq (f : ScalarAffine α) :
    f.evaluate lookup = (· + f.constant) <$> f.sum lookup := by
  unfold evaluate sum
  cases f.terms.mapM (·.evaluate lookup) <;> rfl

theorem ScalarQuadratic.evaluate_eq (f : ScalarQuadratic α) :
    f.evaluate lookup = (· + f.constant) <$> f.sum lookup := by
  unfold evaluate sum
  cases f.affine.mapM (·.evaluate lookup) with
  | error e => rfl
  | ok affine => cases f.quadratic.mapM (·.evaluate lookup) <;> rfl

theorem VectorAffine.evaluate_eq (f : VectorAffine α)
    (hrow : ∀ t ∈ f.terms, t.row < f.constants.length) :
    f.evaluate lookup =
      (fun values => f.constants.mapIdx (addOnto values)) <$> orError (f.rowValues lookup) :=
  addRows_eq _ hrow

theorem VectorQuadratic.evaluate_eq (f : VectorQuadratic α)
    (haffine : ∀ t ∈ f.affine, t.row < f.constants.length)
    (hquadratic : ∀ t ∈ f.quadratic, t.row < f.constants.length) :
    f.evaluate lookup =
      (fun values => f.constants.mapIdx (addOnto values)) <$> orError (f.rowValues lookup) := by
  unfold evaluate rowValues
  rw [addRows_eq _ haffine]
  cases DualRecovery.rowValues (·.evaluate lookup) f.affine with
  | error e => rfl
  | ok affine =>
    show addRows (·.evaluate lookup) (f.constants.mapIdx (addOnto affine)) f.quadratic = _
    rw [addRows_eq _ (by simpa using hquadratic)]
    cases DualRecovery.rowValues (·.evaluate lookup) f.quadratic with
    | error e => rfl
    | ok quadratic =>
      refine congrArg Except.ok (List.ext_getElem (by simp) fun k hk hk' => ?_)
      simp only [List.getElem_mapIdx, addOnto_append]

/-! ### Without the constant -/

namespace ModelFunction

/-- The function with zeros for its constant. -/
def withoutConstant : ModelFunction α → ModelFunction α
  | .scalarAffine f => .scalarAffine { f with constant := 0 }
  | .vectorAffine f => .vectorAffine { f with constants := List.replicate f.constants.length 0 }
  | .scalarQuadratic f => .scalarQuadratic { f with constant := 0 }
  | .vectorQuadratic f =>
    .vectorQuadratic { f with constants := List.replicate f.constants.length 0 }
  | f => f

/-- The value with the constant taken off again. -/
def evaluateAndSubtract (f : ModelFunction α) (lookup : Lookup α) :
    Except (Failure QueryError) (Value α) := do
  let value ← f.evaluate lookup
  orFault (value.subtract f.constant)

/-- Taking the constant off what it was added to gives back what the terms alone come to. -/
def Cancels (f : ModelFunction α) (lookup : Lookup α) : Prop :=
  match f with
  | .scalarAffine f => ∀ s, f.sum lookup = .ok s → s + f.constant - f.constant = s + 0
  | .scalarQuadratic f => ∀ s, f.sum lookup = .ok s → s + f.constant - f.constant = s + 0
  | .vectorAffine f => ∀ values, f.rowValues lookup = .ok values →
      ∀ k (hk : k < f.constants.length),
        -1 * f.constants[k] + 1 * addOnto values k f.constants[k] = addOnto values k 0
  | .vectorQuadratic f => ∀ values, f.rowValues lookup = .ok values →
      ∀ k (hk : k < f.constants.length),
        -1 * f.constants[k] + 1 * addOnto values k f.constants[k] = addOnto values k 0
  | _ => True

theorem subtract_scalar_eq_iff (x : Except QueryError α) (c : α) :
    (do let value ← Value.scalar <$> orError ((· + c) <$> x); orFault (value.subtract (.scalar c)) :
        Except (Failure QueryError) (Value α)) = Value.scalar <$> orError ((· + 0) <$> x) ↔
      ∀ s, x = .ok s → s + c - c = s + 0 := by
  cases x with
  | error e => exact iff_of_true rfl nofun
  | ok s =>
    show Except.ok (Value.scalar (s + c - c)) = .ok (Value.scalar (s + 0)) ↔ _
    simp

theorem subtract_vector_eq_iff (x : Except QueryError (List (ℕ × α))) (cs : List α) :
    (do let value ← Value.vector <$> (fun values => cs.mapIdx (addOnto values)) <$> orError x
        orFault (value.subtract (.vector cs)) : Except (Failure QueryError) (Value α)) =
        Value.vector <$>
          (fun values => (List.replicate cs.length 0).mapIdx (addOnto values)) <$> orError x ↔
      ∀ values, x = .ok values → ∀ k (hk : k < cs.length),
        -1 * cs[k] + 1 * addOnto values k cs[k] = addOnto values k 0 := by
  cases x with
  | error e => exact iff_of_true rfl nofun
  | ok values =>
    have hlength : (cs.mapIdx (addOnto values)).length = cs.length := by simp
    have hcombine : (Value.vector (cs.mapIdx (addOnto values))).subtract (.vector cs) = .ok (.vector
        (List.zipWith (fun c x => -1 * c + 1 * x) cs (cs.mapIdx (addOnto values)))) := by
      rw [Value.subtract, combine, ofSameLength_of_eq hlength]
      rfl
    show (orFault ((Value.vector (cs.mapIdx (addOnto values))).subtract (.vector cs)) :
      Except (Failure QueryError) (Value α)) = .ok (.vector _) ↔ _
    rw [hcombine, orFault_ok, Except.ok.injEq, Value.vector.injEq, List.ext_getElem_iff]
    simp

/-- The zeros of functions without a constant come off without a trace. -/
theorem evaluateAndSubtract_vectorOfVariables [NeutralZero α] (vs : List VariableIndex) :
    (vectorOfVariables vs).evaluateAndSubtract lookup = (vectorOfVariables vs).evaluate lookup := by
  show (do
    let value ← Value.vector <$> orError (vs.mapM lookup)
    orFault (value.subtract (.vector (List.replicate vs.length 0))) :
      Except (Failure QueryError) (Value α)) = Value.vector <$> orError (vs.mapM lookup)
  cases hvs : vs.mapM lookup with
  | error e => rfl
  | ok xs =>
    have hlength : xs.length = (List.replicate vs.length (0 : α)).length := by
      rw [List.length_replicate, length_of_mapM_eq_ok hvs]
    have hzip :
        List.zipWith (fun c x => -1 * c + 1 * x) (List.replicate vs.length (0 : α)) xs = xs :=
      List.ext_getElem (by simpa using hlength.le) fun k _ _ => by
        rw [List.getElem_zipWith, List.getElem_replicate, NeutralZero.neg_one_mul_zero_add]
    show (orFault ((Value.vector xs).subtract (.vector (List.replicate vs.length 0))) :
      Except (Failure QueryError) (Value α)) = .ok (.vector xs)
    rw [Value.subtract, combine, ofSameLength_of_eq hlength]
    exact congrArg (fun xs => Except.ok (Value.vector xs)) hzip

/-- Taking the constant off is the same as not adding it just if the sums cancel. -/
theorem evaluateAndSubtract_eq_iff [NeutralZero α] (f : ModelFunction α)
    (hrow : ∀ row ∈ f.rows, row < f.dimension) :
    f.evaluateAndSubtract lookup = f.withoutConstant.evaluate lookup ↔ f.Cancels lookup := by
  cases f with
  | singleVariable v =>
    refine iff_of_true ?_ trivial
    show (do
      let value ← Value.scalar <$> orError (lookup v)
      orFault (value.subtract (.scalar 0)) : Except (Failure QueryError) (Value α)) =
        Value.scalar <$> orError (lookup v)
    cases lookup v with
    | error e => rfl
    | ok x => exact congrArg (fun x => Except.ok (Value.scalar x)) (NeutralZero.sub_zero x)
  | vectorOfVariables vs => exact iff_of_true (evaluateAndSubtract_vectorOfVariables vs) trivial
  | scalarAffine f =>
    simp only [evaluateAndSubtract, withoutConstant, evaluate, ScalarAffine.evaluate_eq]
    exact subtract_scalar_eq_iff _ _
  | scalarQuadratic f =>
    simp only [evaluateAndSubtract, withoutConstant, evaluate, ScalarQuadratic.evaluate_eq]
    exact subtract_scalar_eq_iff _ _
  | vectorAffine f =>
    have hterms : ∀ t ∈ f.terms, t.row < f.constants.length := fun t ht =>
      hrow _ (List.mem_map_of_mem ht)
    have hzeros : ∀ t ∈ f.terms, t.row < (List.replicate f.constants.length (0 : α)).length := by
      simpa using hterms
    have hf : f.evaluate lookup = _ := f.evaluate_eq hterms
    have hf' : VectorAffine.evaluate ⟨f.terms, List.replicate f.constants.length 0⟩ lookup = _ :=
      VectorAffine.evaluate_eq _ hzeros
    simp only [evaluateAndSubtract, withoutConstant, evaluate, hf, hf']
    exact subtract_vector_eq_iff _ _
  | vectorQuadratic f =>
    have haffine : ∀ t ∈ f.affine, t.row < f.constants.length := fun t ht =>
      hrow _ (List.mem_append_right _ (List.mem_map_of_mem ht))
    have hquadratic : ∀ t ∈ f.quadratic, t.row < f.constants.length := fun t ht =>
      hrow _ (List.mem_append_left _ (List.mem_map_of_mem ht))
    have hf : f.evaluate lookup = _ := f.evaluate_eq haffine hquadratic
    have hf' : VectorQuadratic.evaluate
        ⟨f.quadratic, f.affine, List.replicate f.constants.length 0⟩ lookup = _ :=
      VectorQuadratic.evaluate_eq _ (by simpa using haffine) (by simpa using hquadratic)
    simp only [evaluateAndSubtract, withoutConstant, evaluate, hf, hf']
    exact subtract_vector_eq_iff _ _

/-- Exact sums cancel. -/
theorem cancels_rat (f : ModelFunction ℚ) (lookup : Lookup ℚ) : f.Cancels lookup := by
  have hsum (values : List (ℕ × ℚ)) (k : ℕ) (c : ℚ) :
      -1 * c + 1 * addOnto values k c = addOnto values k 0 := by
    rw [addOnto, addOnto, foldl_add_eq_add_sum, foldl_add_eq_add_sum]
    ring
  cases f with
  | singleVariable v => trivial
  | vectorOfVariables vs => trivial
  | scalarAffine f => exact fun s _ => by ring
  | scalarQuadratic f => exact fun s _ => by ring
  | vectorAffine f => exact fun values _ k _ => hsum values k _
  | vectorQuadratic f => exact fun values _ k _ => hsum values k _

end ModelFunction

end DualRecovery
