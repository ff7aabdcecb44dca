import DualRecovery.Proofs.Recovery.Reporting
import DualRecovery.Proofs.Trace.Stages

/-! Which duals the reduced cost of a variable asks a backend for, however its answers fit together.
The search goes through stages: the objective, then the families one by one, and in each of them
the constraints as they are listed. Exactly those affine constraints are asked for their duals in
which a coefficient of the variable exceeds the tolerance, up to the first stage that fails, and no
other dual matters. -/

namespace DualRecovery

open Scalar Traced

namespace Backend

variable {α : Type} [Scalar α] (b : Backend α) (settings : Settings α) (r : ℕ)
  (excluded : ConstraintIndex) (v : VariableIndex)

/-! ### The constraints that matter -/

/-- The coefficients of `v` in a constraint: one in a scalar affine function, one for each row of a
vector affine function, and none in others. -/
def coefficients (ci : ConstraintIndex) : List α :=
  match b.function ci with
  | .ok (.scalarAffine f) => [f.coefficient v]
  | .ok (.vectorAffine f) => (f.coefficient v).toOption.getD []
  | _ => []

/-- A coefficient of `v` in the constraint is not within the tolerance. One that is no number never
is. -/
def Matters (ci : ConstraintIndex) : Prop :=
  ∃ a ∈ b.coefficients v ci, ¬magnitude a ≤ settings.zeroTolerance

instance (ci : ConstraintIndex) : Decidable (b.Matters settings v ci) :=
  inferInstanceAs (Decidable (∃ a ∈ b.coefficients v ci, ¬magnitude a ≤ settings.zeroTolerance))

/-- The affine constraints in which a coefficient of `v` matters, in the order in which they are
listed. -/
def relevant : List ConstraintIndex :=
  ((b.families.filter (·.kind.isAffine)).flatMap b.indices).filter (b.Matters settings v)

/-! ### The stages of the search -/

/-- The gradient of the objective is needed, and cannot be taken. -/
def gradientFailure? : Option (Failure RecoveryError) :=
  if (b.dualStatus r).isRay = true ∨ b.sense = .feasibility then none
  else
    match b.objective with
    | .error cause => some (.error (.query cause))
    | .ok f =>
      if f.kind = .singleVariable ∨ f.kind = .scalarAffine then none
      else some (.error (.unsupportedObjective f.kind))

/-- `other` is no constraint that can be told to be on variables other than `v`. -/
def unrelatedFailure? (other : ConstraintIndex) : Option (Failure RecoveryError) :=
  match b.function other with
  | .error cause => some (.error (.query cause))
  | .ok f =>
    if v ∈ f.occurrences then some (.error (.ambiguousVariable v excluded other)) else none

/-- The dual of a scalar constraint is no number. -/
def scalarDualFailure? (ci : ConstraintIndex) : Option (Failure RecoveryError) :=
  match b.dual ci r with
  | .error cause => some (.error (.query cause))
  | .ok (.scalar _) => none
  | .ok (.vector ys) => some (.error (.dimensionMismatch ci 1 ys.length))

/-- The dual of a vector constraint has no product with the column of `v`. -/
def columnFailure? (ci : ConstraintIndex) (column : List α) : Option (Failure RecoveryError) :=
  match b.dual ci r with
  | .error cause => some (.error (.query cause))
  | .ok (.scalar _) => some (.error (.dimensionMismatch ci column.length 1))
  | .ok (.vector ys) =>
    if ys.length ≠ column.length then
      some (.error (.dimensionMismatch ci column.length ys.length))
    else
      match b.set ci with
      | .error cause => some (.error (.query cause))
      | .ok set =>
        match set.innerProduct.dot column ys with
        | .error cause => some (.fault cause)
        | .ok _ => none

/-- The constraint is not affine, or it matters and its dual is none for it. -/
def adjointFailure? (ci : ConstraintIndex) : Option (Failure RecoveryError) :=
  match b.function ci with
  | .error cause => some (.error (.query cause))
  | .ok (.scalarAffine _) => if b.Matters settings v ci then b.scalarDualFailure? r ci else none
  | .ok (.vectorAffine f) =>
    match f.coefficient v with
    | .error cause => some (.fault cause)
    | .ok column => if b.Matters settings v ci then b.columnFailure? r ci column else none
  | .ok _ => some (.error (.unsupportedConstraint ci.family))

/-- A dual is asked for if the constraint matters. -/
def adjointStage (ci : ConstraintIndex) : Stage :=
  ⟨if b.Matters settings v ci then some (.constraintDual ci r) else none,
    b.adjointFailure? settings r v ci⟩

def familyStages (family : Family) : List Stage :=
  if family.kind.isQuadratic then [⟨none, some (.error (.unsupportedConstraint family))⟩]
  else if family.kind.isVariableWise then
    ((b.indices family).filter (· ≠ excluded)).map fun other =>
      ⟨none, b.unrelatedFailure? excluded v other⟩
  else (b.indices family).map (b.adjointStage settings r v)

/-- First the objective, then the families one by one. -/
def costStages : List Stage :=
  ⟨none, b.gradientFailure? r⟩ :: b.families.flatMap (b.familyStages settings r excluded v)

/-! ### One stage -/

variable {b settings r excluded v}

theorem objectiveGradient_follows :
    (b.objectiveGradient r v).Follows [⟨none, b.gradientFailure? r⟩] := by
  have hentry (sign : α) (f : ModelFunction α) : (gradientEntry sign v f).queries = [] ∧
      (gradientEntry sign v f).failure? =
        if f.kind = .singleVariable ∨ f.kind = .scalarAffine then none
        else some (.error (.unsupportedObjective f.kind)) := by
    cases f <;> exact ⟨rfl, rfl⟩
  unfold objectiveGradient gradientFailure?
  split
  · next hray => exact .of_stage rfl (by rw [if_pos (.inl hray)]; rfl)
  · next hray =>
    cases hsense : b.sense with
    | feasibility => exact .of_stage rfl (by rw [if_pos (.inr rfl)]; rfl)
    | minimize | maximize =>
      rw [if_neg (by simp [hray])]
      cases b.objective with
      | error cause => exact .of_stage rfl rfl
      | ok f => exact .of_stage (hentry _ f).1 (hentry _ f).2

omit [Scalar α] in
theorem checkUnrelated_follows {other : ConstraintIndex} :
    (b.checkUnrelated excluded v other).Follows [⟨none, b.unrelatedFailure? excluded v other⟩] := by
  unfold checkUnrelated unrelatedFailure?
  cases b.function other with
  | error cause => exact .of_stage rfl rfl
  | ok f =>
    simp only [ofQuery_ok, pure_bind, f.mentions_iff_mem_occurrences]
    split
    · exact .of_stage rfl rfl
    · exact .of_stage rfl rfl

variable {ci : ConstraintIndex}

theorem scalarDual_follows (coefficient : α) :
    (b.reportedScalarDual r ci >>= fun y => emitContribution ci v (coefficient * y)).Follows
      [⟨some (.constraintDual ci r), b.scalarDualFailure? r ci⟩] := by
  unfold reportedScalarDual reportedDual scalarDualFailure?
  cases b.dual ci r with
  | error cause => exact .of_stage rfl rfl
  | ok y => cases y <;> exact .of_stage rfl rfl

theorem vectorDual_follows (column : List α) :
    (b.reportedVectorDual r ci column.length >>= fun y =>
      ofQuery (b.set ci) >>= fun set =>
        ofChecked (set.innerProduct.dot column y) >>= emitContribution ci v).Follows
      [⟨some (.constraintDual ci r), b.columnFailure? r ci column⟩] := by
  unfold reportedVectorDual reportedDual columnFailure?
  cases b.dual ci r with
  | error cause => exact .of_stage rfl rfl
  | ok y =>
    cases y with
    | scalar y => exact .of_stage rfl rfl
    | vector ys =>
      by_cases hys : ys.length = column.length
      · have hvector : asVectorDual ci column.length (.vector ys) = pure ys := if_pos hys
        simp only [ofQuery_ok, bind_assoc, pure_bind, hvector]
        rw [if_neg (not_not.mpr hys)]
        cases b.set ci with
        | error cause => exact .of_stage rfl rfl
        | ok set =>
          simp only [ofQuery_ok, pure_bind]
          cases set.innerProduct.dot column ys with
          | error cause => exact .of_stage rfl rfl
          | ok x => exact .of_stage rfl rfl
      · have hvector : asVectorDual ci column.length (.vector ys) =
            (fail (.dimensionMismatch ci column.length ys.length) : Traced α (List α)) :=
          if_neg hys
        simp only [ofQuery_ok, bind_assoc, pure_bind, hvector]
        rw [if_pos hys]
        exact .of_stage rfl rfl

theorem not_matters_of_coefficients (h : b.coefficients v ci = []) :
    ¬b.Matters settings v ci := by
  rw [Matters, h]
  simp

theorem matters_scalar {f : ScalarAffine α} (hf : b.function ci = .ok (.scalarAffine f)) :
    b.Matters settings v ci ↔ ¬settings.neglects (magnitude (f.coefficient v)) = true := by
  rw [Matters, coefficients, hf, Settings.neglects_iff]
  simp

/-- A coefficient that is no number matters at any tolerance. -/
theorem matters_of_isNaN [OrderedScalar α] {a : α} (ha : a ∈ b.coefficients v ci)
    (hnan : isNaN a = true) : b.Matters settings v ci := by
  have hnot {t : α} : ¬a ≤ t := fun h => by
    rw [(OrderedScalar.isNaN_of_le h).1] at hnan
    cases hnan
  have hmagnitude : magnitude a = a := if_neg fun h => hnot (OrderedScalar.le_of_lt h)
  exact ⟨a, ha, hmagnitude.symm ▸ hnot⟩

theorem matters_vector [OrderedScalar α] (ht : 0 ≤ settings.zeroTolerance) {f : VectorAffine α}
    (hf : b.function ci = .ok (.vectorAffine f)) {column : List α}
    (hcolumn : f.coefficient v = .ok column) :
    b.Matters settings v ci ↔ ¬settings.neglects (largestMagnitude column) = true := by
  rw [Matters, coefficients, hf, Settings.neglects_iff, largestMagnitude_le_iff_forall ht]
  simp only [hcolumn]
  push Not
  rfl

theorem adjointEntry_follows [OrderedScalar α] (ht : 0 ≤ settings.zeroTolerance)
    (ci : ConstraintIndex) :
    (b.adjointEntry settings r v ci).Follows [b.adjointStage settings r v ci] := by
  unfold adjointEntry adjointStage adjointFailure?
  cases hf : b.function ci with
  | error cause =>
    rw [if_neg (not_matters_of_coefficients (by rw [coefficients, hf]))]
    exact .of_stage rfl rfl
  | ok f =>
    rw [ofQuery_ok, pure_bind]
    cases f with
    | scalarAffine f =>
      dsimp only
      by_cases h : b.Matters settings v ci
      · rw [if_neg ((matters_scalar hf).mp h), if_pos h, if_pos h]
        exact scalarDual_follows _
      · rw [if_pos (not_not.mp (mt (matters_scalar hf).mpr h)), if_neg h, if_neg h]
        exact .of_stage rfl rfl
    | vectorAffine f =>
      dsimp only
      cases hcolumn : f.coefficient v with
      | error cause =>
        have hnone : b.coefficients v ci = [] := by
          rw [coefficients, hf]
          simp [hcolumn, Except.toOption]
        rw [if_neg (not_matters_of_coefficients hnone)]
        exact .of_stage rfl rfl
      | ok column =>
        dsimp only
        rw [ofChecked_ok, pure_bind]
        by_cases h : b.Matters settings v ci
        · rw [if_neg ((matters_vector ht hf hcolumn).mp h), if_pos h, if_pos h]
          exact vectorDual_follows column
        · rw [if_pos (not_not.mp (mt (matters_vector ht hf hcolumn).mpr h)), if_neg h, if_neg h]
          exact .of_stage rfl rfl
    | _ =>
      rw [if_neg (not_matters_of_coefficients (by rw [coefficients, hf]))]
      exact .of_stage rfl rfl

/-! ### All stages -/

theorem familyAdjointEntry_follows [OrderedScalar α] (ht : 0 ≤ settings.zeroTolerance)
    (family : Family) :
    (b.familyAdjointEntry settings r excluded v family).Follows
      (b.familyStages settings r excluded v family) := by
  unfold familyAdjointEntry familyStages
  split
  · exact .of_stage rfl rfl
  · split
    · rw [List.map_eq_flatMap]
      exact (Follows.forM fun other _ => checkUnrelated_follows).bind_pure fun _ => 0
    · rw [List.map_eq_flatMap]
      exact Follows.foldlM (fun total ci _ => (adjointEntry_follows ht ci).bind_pure _) 0

theorem reducedCost_follows [OrderedScalar α] (ht : 0 ≤ settings.zeroTolerance) :
    (b.reducedCost settings r excluded v).Follows (b.costStages settings r excluded v) :=
  objectiveGradient_follows.bind fun gradient => Follows.foldlM (fun dual family _ =>
    (familyAdjointEntry_follows ht family).bind_pure (dual - ·)) gradient

theorem filterMap_query_familyStages (family : Family) :
    (b.familyStages settings r excluded v family).filterMap Stage.query? =
      if family.kind.isAffine = true then
        ((b.indices family).filter (b.Matters settings v)).map (Query.constraintDual · r)
      else [] := by
  unfold familyStages
  by_cases haffine : family.kind.isAffine = true
  · obtain ⟨hquadratic, hwise⟩ := FunctionKind.isAffine_iff.mp haffine
    rw [if_pos haffine, hquadratic, hwise, if_neg Bool.false_ne_true, if_neg Bool.false_ne_true,
      List.filterMap_map, ← List.filterMap_eq_map, List.filterMap_filter]
    simp only [decide_eq_true_eq]
    rfl
  · rw [if_neg haffine]
    split
    · rfl
    · next hquadratic =>
      have hwise := FunctionKind.isVariableWise_of_not_isAffine (eq_false_of_ne_true hquadratic)
        haffine
      rw [if_pos hwise, List.filterMap_map, List.filterMap_eq_nil_iff]
      exact fun other _ => rfl

/-- What all stages ask for together are the duals of the relevant constraints. -/
theorem filterMap_query_costStages :
    (b.costStages settings r excluded v).filterMap Stage.query? =
      (b.relevant settings v).map (Query.constraintDual · r) := by
  rw [costStages, List.filterMap_cons_none rfl, List.filterMap_flatMap, relevant]
  induction b.families with
  | nil => rfl
  | cons family families ih =>
    rw [List.flatMap_cons, ih, filterMap_query_familyStages, List.filter_cons]
    split
    · rw [List.flatMap_cons, List.filter_append, List.map_append]
    · rfl

/-! ### Duals that do not matter -/

theorem adjointEntry_congr_of_matters [OrderedScalar α] (ht : 0 ≤ settings.zeroTolerance)
    {dual : ConstraintIndex → ℕ → Except QueryError (Value α)}
    (h : b.Matters settings v ci → dual ci r = b.dual ci r) :
    ({ b with dual } : Backend α).adjointEntry settings r v ci =
      b.adjointEntry settings r v ci := by
  by_cases hmatters : b.Matters settings v ci
  · exact adjointEntry_congr (h hmatters) v
  · unfold adjointEntry
    cases hf : b.function ci with
    | error cause => rfl
    | ok f =>
      cases f with
      | scalarAffine f =>
        have hneglects := not_not.mp (mt (matters_scalar hf).mpr hmatters)
        simp only [ofQuery_ok, pure_bind, if_pos hneglects]
      | vectorAffine f =>
        cases hcolumn : f.coefficient v with
        | error cause => simp only [ofQuery_ok, pure_bind, hcolumn]; rfl
        | ok column =>
          have hneglects := not_not.mp (mt (matters_vector ht hf hcolumn).mpr hmatters)
          simp only [ofQuery_ok, pure_bind, hcolumn, ofChecked_ok, if_pos hneglects]
      | _ => rfl

theorem mem_relevant {family : Family} (hfamily : family ∈ b.families)
    (haffine : family.kind.isAffine = true) (hci : ci ∈ b.indices family)
    (h : b.Matters settings v ci) : ci ∈ b.relevant settings v :=
  List.mem_filter.mpr ⟨List.mem_flatMap.mpr ⟨family, List.mem_filter.mpr ⟨hfamily, haffine⟩, hci⟩,
    decide_eq_true h⟩

/-- The duals that the reduced cost of a variable is asked for are the first of those of the
relevant constraints, each asked for once per listing and at the same result. They are all of them
if the reduced cost is found; if not, they are those up to the first stage that fails, with whose
failure the search ends. No dual of another constraint changes anything. -/
theorem queries_reducedCost [OrderedScalar α] (b : Backend α) {settings : Settings α}
    (hs : settings.validate = .ok ()) (r : ℕ) (excluded : ConstraintIndex) (v : VariableIndex) :
    (b.reducedCost settings r excluded v).queries <+:
        (b.relevant settings v).map (Query.constraintDual · r) ∧
      (∀ cost, (b.reducedCost settings r excluded v).Returns cost →
        (b.reducedCost settings r excluded v).queries =
          (b.relevant settings v).map (Query.constraintDual · r)) ∧
      (∀ failure, (b.reducedCost settings r excluded v).outcome = .error failure →
        ∃ earlier s later, b.costStages settings r excluded v = earlier ++ s :: later ∧
          (∀ s' ∈ earlier, s'.failure? = none) ∧ s.failure? = some failure ∧
          (b.reducedCost settings r excluded v).queries =
            (earlier ++ [s]).filterMap Stage.query?) ∧
      ∀ dual : ConstraintIndex → ℕ → Except QueryError (Value α),
        (∀ ci ∈ b.relevant settings v, dual ci r = b.dual ci r) →
        ({ b with dual } : Backend α).reducedCost settings r excluded v =
          b.reducedCost settings r excluded v := by
  have ht := Settings.zeroTolerance_nonneg hs
  have hfollows : (b.reducedCost settings r excluded v).Follows
      (b.costStages settings r excluded v) := reducedCost_follows ht
  have hqueries : (b.costStages settings r excluded v).filterMap Stage.query? =
      (b.relevant settings v).map (Query.constraintDual · r) := filterMap_query_costStages
  rw [← hqueries]
  refine ⟨hfollows.queries_prefix, fun cost h => hfollows.queries_of_ok h,
    fun failure h => hfollows.exists_split_of_error h, fun dual hdual => ?_⟩
  refine reducedCost_congr (fun family hfamily haffine ci hci => ?_) excluded
  exact adjointEntry_congr_of_matters ht fun h => hdual ci (mem_relevant hfamily haffine hci h)

/-- A variable with a bound and in three rounded constraints: one whose terms in it cancel but for
a rest within the tolerance and whose dual is not reported, and two whose duals are, the last with
an entry that is no number. -/
def rounded : Backend Float := (Store.runAll .empty
  [.addVariables 2, .addConstraint (.singleVariable ⟨0⟩) (.greaterThan 0.0),
    .addConstraint (.scalarAffine ⟨[⟨1.0, ⟨1⟩⟩, ⟨1.0, ⟨0⟩⟩, ⟨-0.875, ⟨0⟩⟩], 0.0⟩) (.lessThan 1.0),
    .addConstraint (.scalarAffine ⟨[⟨2.0, ⟨0⟩⟩], 0.0⟩) (.lessThan 2.0),
    .addConstraint (.vectorAffine ⟨[⟨0, ⟨0.0, ⟨0⟩⟩⟩, ⟨1, ⟨0.0 / 0.0, ⟨0⟩⟩⟩], [0.0, 0.0]⟩)
      (.nonnegativeCone 2),
    .setObjective .minimize (.singleVariable ⟨0⟩),
    .reportDual 0 ⟨⟨.scalarAffine, .lessThan⟩, 2⟩ (.scalar (-0.5)),
    .reportDual 0 ⟨⟨.vectorAffine, .nonnegativeCone⟩, 3⟩ (.vector [1.0, 1.0])]).backend

/-- The settings under which `rounded` neglects the rest. -/
def tolerant : Settings Float := ⟨Settings.evaluatePolicy, 0.25⟩

theorem queries_reducedCost_rounded :
    tolerant.validate = .ok () ∧
      (rounded.reducedCost tolerant 0 ⟨⟨.singleVariable, .greaterThan⟩, 0⟩ ⟨0⟩).queries =
        [.constraintDual ⟨⟨.scalarAffine, .lessThan⟩, 2⟩ 0,
          .constraintDual ⟨⟨.vectorAffine, .nonnegativeCone⟩, 3⟩ 0] := by
  have hs : tolerant.validate = .ok () := by decide +kernel
  obtain ⟨-, hall, -, -⟩ :=
    queries_reducedCost rounded hs 0 ⟨⟨.singleVariable, .greaterThan⟩, 0⟩ ⟨0⟩
  have hok : (rounded.reducedCost tolerant 0 ⟨⟨.singleVariable, .greaterThan⟩, 0⟩
      ⟨0⟩).outcome.toBool = true := by decide +kernel
  obtain ⟨cost, hcost⟩ := exists_returns_of_toBool hok
  refine ⟨hs, (hall cost hcost).trans ?_⟩
  decide +kernel

end Backend

end DualRecovery
