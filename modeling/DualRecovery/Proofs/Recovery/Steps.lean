import DualRecovery.Proofs.Recovery.DualTerm
import DualRecovery.Proofs.Recovery.Safety
import DualRecovery.Proofs.Trace.Steps

/-! The steps in which a dual is recovered and a dual objective computed, whatever the backend
answers. Every constraint that contributes is one step, with one event for its contribution; all
other steps are silent. -/

namespace DualRecovery

open Scalar Traced

namespace Backend

variable {α : Type} [Scalar α] (b : Backend α) (settings : Settings α) (r : ℕ)

/-! ### The steps of a reduced cost -/

section

variable (excluded : ConstraintIndex) (v : VariableIndex)

/-- The coefficient of `v` in the constraint is neglected. -/
def skips (ci : ConstraintIndex) : Bool :=
  match b.function ci with
  | .ok (.scalarAffine f) => settings.neglects (magnitude (f.coefficient v))
  | .ok (.vectorAffine f) =>
    match f.coefficient v with
    | .ok column => settings.neglects (largestMagnitude column)
    | .error _ => false
  | _ => false

/-- A constraint that is not skipped emits its entry of the adjoint. -/
def adjointStep (ci : ConstraintIndex) : Step α :=
  (b.adjointEntry settings r v ci).asStep fun x =>
    if b.skips settings v ci then none else some (.dualContribution ci v x)

def familyAdjointSteps (family : Family) : List (Step α) :=
  if family.kind.isQuadratic then [.error (.error (.unsupportedConstraint family))]
  else if family.kind.isVariableWise then
    ((b.indices family).filter (· ≠ excluded)).map fun other =>
      (b.checkUnrelated excluded v other).asStep fun _ => none
  else (b.indices family).map (b.adjointStep settings r v)

/-- First the objective, then the families one by one. -/
def costSteps : List (Step α) :=
  ((b.objectiveGradient r v).asStep fun _ => none) ::
    b.families.flatMap (b.familyAdjointSteps settings r excluded v)

end

/-! ### The steps of a recovered dual -/

variable (ci : ConstraintIndex)

/-- The variables of a constraint on single variables, as often as it has them. -/
def constrainedVariables : List VariableIndex :=
  match b.function ci with
  | .ok (.singleVariable v) => [v]
  | .ok (.vectorOfVariables vs) => vs
  | _ => []

/-- Variable by variable, and last the dual from their reduced costs. -/
def dualSteps : List (Step α) :=
  (b.constrainedVariables ci).flatMap (b.costSteps settings r ci) ++
    [(b.stationaryDual settings r ci).asStep fun _ => none]

/-! ### The steps of a dual objective -/

/-- The dual of the constraint is needed, is not available, and can be recovered. -/
def needsRecovery : Bool :=
  match b.function ci, b.set ci, b.dual ci r with
  | .ok f, .ok _, .error cause =>
    f.kind.isScalar && cause.isNotAvailable && ci.family.kind.isVariableWise
  | _, _, _ => false

/-- A constraint emits its contribution, after what the recovery of its dual emits. -/
def termSteps : List (Step α) :=
  (if b.needsRecovery r ci then b.dualSteps settings r ci else []) ++
    [(b.loggedDualTerm settings r ci).asStep fun x => some (.objectiveContribution ci x)]

def familyTermSteps (family : Family) : List (Step α) :=
  if family.kind.isQuadratic then [.error (.error (.unsupportedConstraint family))]
  else if family.kind = .vectorOfVariables then []
  else (b.indices family).flatMap (b.termSteps settings r)

/-- The families one by one, and last the constant of the objective. -/
def objectiveSteps : List (Step α) :=
  b.families.flatMap (b.familyTermSteps settings r) ++
    [(b.dualObjective settings r).asStep fun _ => none]

/-! ### Reduced costs -/

variable {b settings r ci} {excluded : ConstraintIndex} {v : VariableIndex}

theorem events_objectiveGradient : (b.objectiveGradient r v).events = [] := by
  have hentry (sign : α) (f : ModelFunction α) : (gradientEntry sign v f).events = [] := by
    cases f <;> rfl
  unfold objectiveGradient
  split
  · rfl
  · cases b.sense with
    | feasibility => rfl
    | minimize | maximize =>
      cases b.objective with
      | error cause => rfl
      | ok f => exact hentry _ f

omit [Scalar α] in
theorem events_checkUnrelated {other : ConstraintIndex} :
    (b.checkUnrelated excluded v other).events = [] := by
  unfold checkUnrelated
  cases b.function other with
  | error cause => rfl
  | ok f =>
    rw [ofQuery_ok, pure_bind]
    split <;> rfl

omit [Scalar α] in
theorem events_reportedScalarDual : (b.reportedScalarDual r ci).events = [] := by
  unfold reportedScalarDual reportedDual
  cases b.dual ci r with
  | error cause => rfl
  | ok y => cases y <;> rfl

omit [Scalar α] in
theorem events_reportedVectorDual (n : ℕ) : (b.reportedVectorDual r ci n).events = [] := by
  have hvector (y : Value α) : (asVectorDual ci n y).events = [] := by
    unfold asVectorDual
    split
    · split <;> rfl
    · rfl
  unfold reportedVectorDual reportedDual
  cases b.dual ci r with
  | error cause => rfl
  | ok y => exact hvector y

theorem adjointEntry_emits : (b.adjointEntry settings r v ci).Emits fun x =>
    if b.skips settings v ci then none else some (.dualContribution ci v x) := by
  unfold adjointEntry
  cases hf : b.function ci with
  | error cause => exact Emits.of_error
  | ok f =>
    rw [ofQuery_ok, pure_bind]
    cases f with
    | scalarAffine f =>
      have hskips : b.skips settings v ci = settings.neglects (magnitude (f.coefficient v)) := by
        rw [skips, hf]
      dsimp only
      rw [← hskips]
      split
      · exact Emits.of_silent rfl
      · exact Emits.silent_bind events_reportedScalarDual fun y => Emits.emit_pure rfl
    | vectorAffine f =>
      dsimp only
      cases hcolumn : f.coefficient v with
      | error cause => exact Emits.of_error
      | ok column =>
        have hskips : b.skips settings v ci = settings.neglects (largestMagnitude column) := by
          rw [skips, hf]
          simp only [hcolumn]
        rw [ofChecked_ok, pure_bind, ← hskips]
        split
        · exact Emits.of_silent rfl
        · refine Emits.silent_bind (events_reportedVectorDual _) fun ys => ?_
          refine Emits.silent_bind rfl fun set => ?_
          exact Emits.silent_bind rfl fun x => Emits.emit_pure rfl
    | _ => exact Emits.of_error

theorem adjointEntry_takes (ci : ConstraintIndex) :
    (b.adjointEntry settings r v ci).Takes [b.adjointStep settings r v ci] :=
  adjointEntry_emits.takes

theorem familyAdjointEntry_takes (family : Family) :
    (b.familyAdjointEntry settings r excluded v family).Takes
      (b.familyAdjointSteps settings r excluded v family) := by
  unfold familyAdjointEntry familyAdjointSteps
  split
  · exact ⟨rfl, rfl⟩
  · split
    · rw [List.map_eq_flatMap]
      exact (Takes.forM fun other _ =>
        (Emits.of_silent events_checkUnrelated).takes).bind_pure fun _ => 0
    · rw [List.map_eq_flatMap]
      exact Takes.foldlM (fun total ci _ => (adjointEntry_takes ci).bind_pure (total + ·)) 0

theorem reducedCost_takes :
    (b.reducedCost settings r excluded v).Takes (b.costSteps settings r excluded v) :=
  (Emits.of_silent events_objectiveGradient).takes.bind fun gradient =>
    Takes.foldlM (fun dual family _ => (familyAdjointEntry_takes family).bind_pure (dual - ·))
      gradient

/-! ### Recovered duals -/

theorem stationaryDual_takes :
    (b.stationaryDual settings r ci).Takes (b.dualSteps settings r ci) := by
  unfold dualSteps stationaryDual constrainedVariables
  cases b.function ci with
  | error cause => exact ⟨rfl, rfl⟩
  | ok f =>
    rw [ofQuery_ok, pure_bind]
    cases f with
    | singleVariable v =>
      rw [List.flatMap_singleton]
      refine reducedCost_takes.bind_emits fun x => ?_
      exact Emits.of_silent rfl
    | vectorOfVariables vs =>
      have hcosts : (vs.mapM (b.reducedCost settings r ci)).Takes
          (vs.flatMap (b.costSteps settings r ci)) := Takes.mapM fun v _ => reducedCost_takes
      refine hcosts.bind_emits fun duals => ?_
      refine Emits.silent_bind rfl fun set => ?_
      exact Emits.silent_bind rfl fun ys => Emits.of_silent rfl
    | _ => exact ⟨rfl, rfl⟩

/-! ### The dual objective -/

omit [Scalar α] in
theorem exists_of_needsRecovery (h : b.needsRecovery r ci = true) :
    (∃ f, b.function ci = .ok f ∧ f.kind.isScalar = true) ∧ (∃ set, b.set ci = .ok set) ∧
      ∃ cause, b.dual ci r = .error cause ∧ cause.isNotAvailable = true ∧
        ci.family.kind.isVariableWise = true := by
  unfold needsRecovery at h
  split at h
  · next f set cause hf hset hdual =>
    simp only [Bool.and_eq_true] at h
    exact ⟨⟨f, hf, h.1.1⟩, ⟨set, hset⟩, cause, hdual, h.1.2, h.2⟩
  · cases h

/-- A dual that needs recovery is asked for, and then recovered. -/
theorem scalarDualOrRecovered_of_needsRecovery (h : b.needsRecovery r ci = true) :
    b.scalarDualOrRecovered settings r ci =
      note (.query (.constraintDual ci r)) >>= fun _ =>
        b.stationaryDual settings r ci >>= asScalarDual ci := by
  obtain ⟨-, -, cause, hdual, hcause, hwise⟩ := exists_of_needsRecovery h
  have hreported : b.reportedScalarDual r ci =
      ⟨[.query (.constraintDual ci r)], .error (.error (.query cause))⟩ := by
    rw [reportedScalarDual, reportedDual, hdual]
    rfl
  have hrecovers : (RecoveryError.query cause).isNotAvailable = true ∧
      ci.family.kind.isVariableWise = true := ⟨hcause, hwise⟩
  simp only [scalarDualOrRecovered, hreported, recover, if_pos hrecovers]
  rfl

/-- A dual that does not need recovery is not recovered, if the function has numbers as values. -/
theorem events_scalarDualOrRecovered {f : ModelFunction α} {set : ConstraintSet α}
    (hf : b.function ci = .ok f) (hscalar : f.kind.isScalar = true) (hset : b.set ci = .ok set)
    (h : b.needsRecovery r ci = false) : (b.scalarDualOrRecovered settings r ci).events = [] := by
  unfold needsRecovery at h
  rw [hf, hset] at h
  unfold scalarDualOrRecovered reportedScalarDual reportedDual
  cases hdual : b.dual ci r with
  | ok y => cases y <;> rfl
  | error cause =>
    rw [hdual] at h
    have hnot : ¬((RecoveryError.query cause).isNotAvailable = true ∧
        ci.family.kind.isVariableWise = true) := by
      rintro ⟨hcause, hwise⟩
      simp [hscalar, hwise, show cause.isNotAvailable = true from hcause] at h
    show (Traced.recover ⟨_, .error (.error (.query cause))⟩ _).events = []
    simp only [recover, if_neg hnot]
    rfl

/-- What is done with the dual of a scalar constraint emits nothing. -/
theorem exists_dualTerm_scalar (set : ConstraintSet α) (constant : α) :
    ∃ f : α → Traced α α, (∀ y, (f y).events = []) ∧
      b.dualTerm settings r ci set (.scalar constant) =
        b.scalarDualOrRecovered settings r ci >>= f := by
  refine ⟨_, ?_, rfl⟩
  intro y
  split <;> rfl

theorem events_dualTerm {f : ModelFunction α} {set : ConstraintSet α} (hf : b.function ci = .ok f)
    (hset : b.set ci = .ok set) (h : b.needsRecovery r ci = false) :
    (b.dualTerm settings r ci set f.constant).events = [] := by
  have hshape := f.isScalar_constant
  cases hconstant : f.constant with
  | scalar constant =>
    rw [hconstant] at hshape
    obtain ⟨term, hterm, hdualTerm⟩ := exists_dualTerm_scalar (b := b) (r := r) set constant
    rw [hdualTerm]
    exact events_bind_eq_nil (events_scalarDualOrRecovered hf hshape.symm hset h) hterm
  | vector constants =>
    refine events_bind_eq_nil (events_reportedVectorDual _) fun ys => ?_
    exact events_bind_eq_nil rfl fun x => rfl

/-- Where no dual needs recovery, the contribution is all that is emitted. -/
theorem loggedDualTerm_emits (h : b.needsRecovery r ci = false) :
    (b.loggedDualTerm settings r ci).Emits fun x => some (.objectiveContribution ci x) := by
  unfold loggedDualTerm
  cases hf : b.function ci with
  | error cause => exact Emits.of_error
  | ok f =>
    cases hset : b.set ci with
    | error cause => exact Emits.of_error
    | ok set =>
      rw [ofQuery_ok, ofQuery_ok, pure_bind, pure_bind]
      exact Emits.silent_bind (events_dualTerm hf hset h) fun x => Emits.emit_pure rfl

theorem loggedDualTerm_of_needsRecovery (h : b.needsRecovery r ci = true) :
    ∃ f : α → Traced α α, (∀ y, (f y).events = []) ∧
      b.loggedDualTerm settings r ci =
        note (.query (.constraintDual ci r)) >>= fun _ =>
          b.stationaryDual settings r ci >>= fun y => asScalarDual ci y >>= fun y =>
            f y >>= fun x => emit (.objectiveContribution ci x) >>= fun _ => pure x := by
  obtain ⟨⟨f, hf, hscalar⟩, ⟨set, hset⟩, -⟩ := exists_of_needsRecovery h
  obtain ⟨constant, hconstant⟩ := ModelFunction.exists_constant hscalar
  obtain ⟨term, hterm, hdualTerm⟩ := exists_dualTerm_scalar (b := b) (r := r) set constant
  refine ⟨term, hterm, ?_⟩
  unfold loggedDualTerm
  rw [hf, hset, ofQuery_ok, ofQuery_ok, pure_bind, pure_bind, hconstant, hdualTerm,
    scalarDualOrRecovered_of_needsRecovery h]
  simp only [bind_assoc]

theorem loggedDualTerm_takes (ci : ConstraintIndex) :
    (b.loggedDualTerm settings r ci).Takes (b.termSteps settings r ci) := by
  cases h : b.needsRecovery r ci with
  | true =>
    obtain ⟨f, hf, heq⟩ := loggedDualTerm_of_needsRecovery h
    rw [termSteps, if_pos h, heq]
    refine Takes.note_bind (stationaryDual_takes.bind_emits fun y => ?_)
    refine Emits.silent_bind (by cases y <;> rfl) fun y => ?_
    exact Emits.silent_bind (hf y) fun x => Emits.emit_pure rfl
  | false =>
    rw [termSteps, if_neg (by simp [h]), List.nil_append]
    exact (loggedDualTerm_emits h).takes

theorem addFamilyDualObjective_takes (value : α) (family : Family) :
    (b.addFamilyDualObjective settings r value family).Takes
      (b.familyTermSteps settings r family) := by
  unfold addFamilyDualObjective familyTermSteps
  split
  · exact ⟨rfl, rfl⟩
  · split
    · exact Takes.pure value
    · exact Takes.foldlM (fun value ci _ => (loggedDualTerm_takes ci).bind_pure (value + ·)) value

variable (b r) in
/-- `value` is the dual objective if `sum` is what the constraints contribute: it is in the sense of
the model, and has the constant of the objective, if there is one at the result. -/
def IsDualObjective (sum value : α) : Prop :=
  let signed := if b.sense = .maximize then -sum else sum
  if b.sense = .feasibility ∨ (b.dualStatus r).isRay = true then value = signed
  else ∃ objective constant, b.objective = .ok objective ∧
    (objectiveConstant objective : Traced α α).Returns constant ∧ value = signed + constant

/-- What is done with the sum of the contributions emits nothing. -/
theorem exists_dualObjective :
    ∃ f : α → Traced α α, (∀ sum, (f sum).events = []) ∧
      (∀ sum value, (f sum).Returns value → b.IsDualObjective r sum value) ∧
      b.dualObjective settings r =
        b.families.foldlM (b.addFamilyDualObjective settings r) 0 >>= f := by
  refine ⟨_, fun sum => ?_, fun sum value h => ?_, rfl⟩
  · have hconstant (f : ModelFunction α) : (objectiveConstant f : Traced α α).events = [] := by
      cases f <;> rfl
    dsimp only
    split
    · rfl
    · refine events_bind_eq_nil rfl fun objective => ?_
      exact events_bind_eq_nil (hconstant objective) fun constant => rfl
  · dsimp only at h
    unfold IsDualObjective
    split at h
    · next hnone =>
      rw [if_pos hnone]
      exact (returns_pure.mp h).symm
    · next hsome =>
      rw [if_neg hsome]
      obtain ⟨objective, hobjective, h⟩ := returns_bind.mp h
      obtain ⟨constant, hconstant, h⟩ := returns_bind.mp h
      exact ⟨objective, constant, returns_ofQuery.mp hobjective, hconstant,
        (returns_pure.mp h).symm⟩

theorem dualObjective_takes :
    (b.dualObjective settings r).Takes (b.objectiveSteps settings r) := by
  obtain ⟨f, hf, -, heq⟩ := exists_dualObjective (b := b) (r := r)
  have hterms : (b.families.foldlM (b.addFamilyDualObjective settings r) 0).Takes
      (b.families.flatMap (b.familyTermSteps settings r)) :=
    Takes.foldlM (fun value family _ => addFamilyDualObjective_takes value family) 0
  rw [objectiveSteps, heq]
  exact hterms.bind_emits fun sum => Emits.of_silent (hf sum)

/-! ### What is emitted -/

theorem mem_costSteps {e : Event α} (h : .ok (some e) ∈ b.costSteps settings r excluded v) :
    ∃ ci x, e = .dualContribution ci v x := by
  rcases List.mem_cons.mp h with h | h
  · exact absurd h ne_silent_step
  · obtain ⟨family, -, h⟩ := List.mem_flatMap.mp h
    unfold familyAdjointSteps at h
    split at h
    · cases List.mem_singleton.mp h
    · split at h
      · obtain ⟨other, -, h⟩ := List.mem_map.mp h
        exact absurd h.symm ne_silent_step
      · obtain ⟨ci, -, h⟩ := List.mem_map.mp h
        obtain ⟨x, h⟩ := exists_of_asStep h
        split at h
        · cases h
        · exact ⟨ci, x, (Option.some.inj h).symm⟩

theorem mem_dualSteps {e : Event α} (h : .ok (some e) ∈ b.dualSteps settings r ci) :
    ∃ other v x, e = .dualContribution other v x := by
  rcases List.mem_append.mp h with h | h
  · obtain ⟨v, -, h⟩ := List.mem_flatMap.mp h
    obtain ⟨other, x, rfl⟩ := mem_costSteps h
    exact ⟨other, v, x, rfl⟩
  · exact absurd (List.mem_singleton.mp h) ne_silent_step

theorem mem_objectiveSteps {e : Event α} (h : .ok (some e) ∈ b.objectiveSteps settings r) :
    (∃ ci v x, e = .dualContribution ci v x) ∨ ∃ ci x, e = .objectiveContribution ci x := by
  rcases List.mem_append.mp h with h | h
  · obtain ⟨family, -, h⟩ := List.mem_flatMap.mp h
    unfold familyTermSteps at h
    split at h
    · cases List.mem_singleton.mp h
    · split at h
      · cases h
      · obtain ⟨ci, -, h⟩ := List.mem_flatMap.mp h
        rcases List.mem_append.mp h with h | h
        · split at h
          · exact Or.inl (mem_dualSteps h)
          · cases h
        · obtain ⟨x, h⟩ := exists_of_asStep (List.mem_singleton.mp h).symm
          exact Or.inr ⟨ci, x, (Option.some.inj h).symm⟩
  · exact absurd (List.mem_singleton.mp h) ne_silent_step

end Backend

end DualRecovery
