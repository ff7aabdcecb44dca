import DualRecovery.Proofs.ModelFunction.Coefficient
import DualRecovery.Proofs.Trace.Returns

/-! To maximize an objective is to minimize its opposite, for exact scalars: a backend that does the
one and a backend that does the other recover the same duals, and values of the objective and of
the dual objective that are opposite. What fails fails alike. -/

namespace DualRecovery

/-! ### Opposite functions -/

def Value.opposite : Value ℚ → Value ℚ
  | .scalar x => .scalar (-x)
  | .vector xs => .vector (xs.map (-·))

def AffineTerm.opposite (t : AffineTerm ℚ) : AffineTerm ℚ :=
  { t with coefficient := -t.coefficient }

theorem AffineTerm.evaluate_opposite (t : AffineTerm ℚ) (lookup : Lookup ℚ) :
    t.opposite.evaluate lookup = (t.evaluate lookup).map (-·) := by
  unfold evaluate
  show (lookup t.var >>= _) = (lookup t.var >>= _).map _
  cases lookup t.var with
  | error e => rfl
  | ok x => exact congrArg Except.ok (neg_mul t.coefficient x)

theorem mapM_evaluate_opposite (terms : List (AffineTerm ℚ)) (lookup : Lookup ℚ) :
    (terms.map (·.opposite)).mapM (fun t : AffineTerm ℚ => t.evaluate lookup) =
      (terms.mapM fun t : AffineTerm ℚ => t.evaluate lookup).map fun xs => xs.map (-·) := by
  induction terms with
  | nil => rfl
  | cons t terms ih =>
    rw [List.map_cons, List.mapM_cons, List.mapM_cons, ih, t.evaluate_opposite]
    cases t.evaluate lookup with
    | error e => rfl
    | ok x => cases terms.mapM fun t : AffineTerm ℚ => t.evaluate lookup <;> rfl

namespace ScalarAffine

def opposite (f : ScalarAffine ℚ) : ScalarAffine ℚ := ⟨f.terms.map (·.opposite), -f.constant⟩

theorem coefficient_opposite (f : ScalarAffine ℚ) (v : VariableIndex) :
    f.opposite.coefficient v = -f.coefficient v := by
  rw [coefficient_eq_slope, coefficient_eq_slope, slope, slope, opposite, List.sum_neg,
    List.filter_map, List.map_map, List.map_map]
  rfl

theorem evaluate_opposite (f : ScalarAffine ℚ) (lookup : Lookup ℚ) :
    f.opposite.evaluate lookup = (f.evaluate lookup).map (-·) := by
  unfold evaluate opposite
  rw [mapM_evaluate_opposite]
  cases f.terms.mapM fun t : AffineTerm ℚ => t.evaluate lookup with
  | error e => rfl
  | ok xs =>
    have hsum : pairwiseSum (xs.map (-·)) + -f.constant = -(pairwiseSum xs + f.constant) := by
      rw [pairwiseSum_eq_sum, pairwiseSum_eq_sum, ← List.sum_neg, neg_add]
    exact congrArg Except.ok hsum

end ScalarAffine

namespace ModelFunction

/-- The opposite of a single variable or of a scalar affine function, written as a scalar affine
function. Other functions are left as they are. -/
def opposite : ModelFunction ℚ → ModelFunction ℚ
  | .singleVariable v => .scalarAffine ⟨[⟨-1, v⟩], 0⟩
  | .scalarAffine f => .scalarAffine f.opposite
  | f => f

/-- The function is a single variable or scalar affine. -/
def HasOpposite (f : ModelFunction ℚ) : Prop := f.kind = .singleVariable ∨ f.kind = .scalarAffine

instance (f : ModelFunction ℚ) : Decidable f.HasOpposite := inferInstanceAs (Decidable (_ ∨ _))

variable {f : ModelFunction ℚ}

theorem HasOpposite.cases (hf : f.HasOpposite) :
    (∃ v, f = .singleVariable v) ∨ ∃ g, f = .scalarAffine g := by
  cases f with
  | singleVariable v => exact .inl ⟨v, rfl⟩
  | scalarAffine g => exact .inr ⟨g, rfl⟩
  | _ => simp [HasOpposite, kind] at hf

theorem evaluate_opposite (hf : f.HasOpposite) (lookup : Lookup ℚ) :
    f.opposite.evaluate lookup = (f.evaluate lookup).map Value.opposite := by
  obtain ⟨v, rfl⟩ | ⟨g, rfl⟩ := hf.cases
  · show Value.scalar <$> orError (ScalarAffine.evaluate ⟨[⟨-1, v⟩], 0⟩ lookup) =
      (Value.scalar <$> orError (lookup v)).map Value.opposite
    have hvalue : ScalarAffine.evaluate ⟨[⟨-1, v⟩], 0⟩ lookup = (lookup v).map (-·) := by
      unfold ScalarAffine.evaluate AffineTerm.evaluate
      rw [List.mapM_cons, List.mapM_nil]
      cases lookup v with
      | error e => rfl
      | ok x =>
        have hsum : pairwiseSum [-1 * x] + 0 = -x := by
          rw [pairwiseSum_eq_sum, List.sum_singleton, add_zero, neg_one_mul]
        exact congrArg Except.ok hsum
    rw [hvalue]
    cases lookup v <;> rfl
  · show Value.scalar <$> orError (g.opposite.evaluate lookup) =
      (Value.scalar <$> orError (g.evaluate lookup)).map Value.opposite
    rw [g.evaluate_opposite]
    cases g.evaluate lookup <;> rfl

theorem constant_opposite (hf : f.HasOpposite) : f.opposite.constant = f.constant.opposite := by
  obtain ⟨v, rfl⟩ | ⟨g, rfl⟩ := hf.cases
  · rfl
  · rfl

theorem gradientEntry_opposite (f : ModelFunction ℚ) (v : VariableIndex) :
    Backend.gradientEntry 1 v f.opposite = Backend.gradientEntry (-1) v f := by
  cases f with
  | singleVariable w =>
    show (pure (1 * ScalarAffine.coefficient ⟨[⟨-1, w⟩], 0⟩ v) : Traced ℚ ℚ) =
      pure (if w = v then -1 else 0)
    rw [ScalarAffine.coefficient_eq_slope, ScalarAffine.slope, one_mul]
    by_cases hw : w = v <;> simp [hw]
  | scalarAffine f =>
    show (pure (1 * f.opposite.coefficient v) : Traced ℚ ℚ) = pure (-1 * f.coefficient v)
    rw [f.coefficient_opposite, one_mul, neg_one_mul]
  | _ => rfl

theorem objectiveConstant_opposite (f : ModelFunction ℚ) :
    Backend.objectiveConstant f.opposite =
      (Backend.objectiveConstant f >>= fun constant => pure (-constant)) := by
  cases f <;> rfl

end ModelFunction

namespace Value

theorem subtract_opposite (x y : Value ℚ) :
    x.opposite.subtract y.opposite = (x.subtract y).map Value.opposite := by
  cases x with
  | scalar x =>
    cases y with
    | scalar y => exact congrArg (fun z => Except.ok (Value.scalar z)) (by ring)
    | vector ys => rfl
  | vector xs =>
    cases y with
    | scalar y => rfl
    | vector ys =>
      show Value.vector <$> combine (-1) (ys.map (-·)) 1 (xs.map (-·)) =
        (Value.vector <$> combine (-1) ys 1 xs).map Value.opposite
      have hentries : List.zipWith (fun y x => -1 * y + 1 * x) (ys.map (-·)) (xs.map (-·)) =
          (List.zipWith (fun y x => -1 * y + 1 * x) ys xs).map (-·) := by
        rw [List.zipWith_map, List.map_zipWith]
        congr
        funext y x
        ring
      unfold combine ofSameLength
      rw [List.length_map, List.length_map, hentries]
      split <;> rfl

end Value

namespace Backend

open Traced

variable (b : Backend ℚ) (settings : Settings ℚ) (r : ℕ)

/-- The backend with the opposite objective, minimized. -/
def opposite : Backend ℚ :=
  { b with sense := .minimize, objective := b.objective.map (·.opposite) }

variable {b settings r}

/-! ### Duals -/

theorem objectiveGradient_opposite (hsense : b.sense = .maximize) (v : VariableIndex) :
    b.opposite.objectiveGradient r v = b.objectiveGradient r v := by
  unfold objectiveGradient
  rw [hsense]
  have hstatus : b.opposite.dualStatus = b.dualStatus := rfl
  have hobjective : b.opposite.objective = b.objective.map (·.opposite) := rfl
  rw [hstatus, hobjective]
  split
  · rfl
  · cases b.objective with
    | error cause => rfl
    | ok f => exact f.gradientEntry_opposite v

theorem reducedCost_opposite (hsense : b.sense = .maximize) :
    b.opposite.reducedCost settings r = b.reducedCost settings r := by
  funext excluded v
  unfold reducedCost
  rw [objectiveGradient_opposite hsense]
  rfl

theorem stationaryDual_opposite (hsense : b.sense = .maximize) :
    b.opposite.stationaryDual settings r = b.stationaryDual settings r := by
  funext ci
  unfold stationaryDual
  rw [reducedCost_opposite hsense]
  rfl

theorem scalarDualOrRecovered_opposite (hsense : b.sense = .maximize) :
    b.opposite.scalarDualOrRecovered settings r = b.scalarDualOrRecovered settings r := by
  funext ci
  unfold scalarDualOrRecovered
  rw [stationaryDual_opposite hsense]
  rfl

theorem addFamilyDualObjective_opposite (hsense : b.sense = .maximize) :
    b.opposite.addFamilyDualObjective settings r = b.addFamilyDualObjective settings r := by
  have hterm : b.opposite.loggedDualTerm settings r = b.loggedDualTerm settings r := by
    funext ci
    unfold loggedDualTerm dualTerm
    rw [scalarDualOrRecovered_opposite hsense]
    rfl
  funext value family
  unfold addFamilyDualObjective
  rw [hterm]
  rfl

/-! ### Objectives -/

theorem dualObjective_opposite (hsense : b.sense = .maximize) :
    (b.opposite.dualObjective settings r).outcome =
      (b.dualObjective settings r).outcome.map (-·) := by
  have hminimize : b.opposite.sense = .minimize := rfl
  have hstatus : b.opposite.dualStatus = b.dualStatus := rfl
  have hobjective : b.opposite.objective = b.objective.map (·.opposite) := rfl
  unfold dualObjective
  rw [addFamilyDualObjective_opposite hsense, hsense, hminimize, hstatus, hobjective]
  refine outcome_bind_map fun sum => ?_
  simp only [reduceCtorEq, if_false, if_true, false_or]
  split
  · exact congrArg Except.ok (neg_neg sum).symm
  · cases b.objective with
    | error cause => rfl
    | ok f =>
      show (objectiveConstant f.opposite >>= _).outcome = (objectiveConstant f >>= _).outcome.map _
      rw [f.objectiveConstant_opposite, bind_assoc]
      refine outcome_bind_map fun constant => ?_
      exact congrArg Except.ok (by ring)

theorem valueAtPoint_opposite {f : ModelFunction ℚ} (hf : f.HasOpposite) :
    (b.opposite.valueAtPoint settings r f.opposite).outcome =
      (b.valueAtPoint settings r f).outcome.map Value.opposite := by
  unfold valueAtPoint
  rw [f.evaluate_opposite hf, f.constant_opposite hf]
  show (ofEvaluation ((f.evaluate fun v => b.primal v r).map Value.opposite) >>= _).outcome = _
  cases f.evaluate fun v => b.primal v r with
  | error failure => rfl
  | ok value =>
    show (b.omitsConstant settings r >>= _).outcome =
      (b.omitsConstant settings r >>= _).outcome.map _
    refine outcome_bind_map fun omits => ?_
    cases omits with
    | false => rfl
    | true =>
      simp only [if_true, Value.subtract_opposite]
      cases value.subtract f.constant <;> rfl

/-! ### Recovered values -/

theorem recoverDual_opposite (hsense : b.sense = .maximize) (ci : ConstraintIndex) :
    b.opposite.recoverDual settings r ci = b.recoverDual settings r ci := by
  unfold recoverDual
  rw [stationaryDual_opposite hsense]

theorem objectiveValue_opposite {f : ModelFunction ℚ} (hobjective : b.objective = .ok f)
    (hf : f.HasOpposite) :
    (b.opposite.objectiveValue settings r).outcome =
      (b.objectiveValue settings r).outcome.map Value.opposite := by
  have hopposite : b.opposite.objective = .ok f.opposite := by
    rw [opposite, hobjective]
    rfl
  unfold objectiveValue
  rw [outcome_concluded, outcome_concluded, hobjective, hopposite]
  exact valueAtPoint_opposite hf

theorem dualObjectiveValue_opposite (hsense : b.sense = .maximize) :
    (b.opposite.dualObjectiveValue settings r).outcome =
      (b.dualObjectiveValue settings r).outcome.map (-·) := by
  unfold dualObjectiveValue
  rw [outcome_concluded, outcome_concluded, dualObjective_opposite hsense]

end Backend

end DualRecovery
