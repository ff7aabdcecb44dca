import DualRecovery.Recovery.Quantities

/-! What is recovered at a result comes from the model and from what is reported of that result.
Backends that answer alike about both agree in all of it, whatever they say of other results. -/

namespace DualRecovery.Backend

variable {α : Type}

/-- The backend for which what is reported of result `r` is reported of every result. -/
def alone (b : Backend α) (r : Nat) : Backend α :=
  { b with
    primal := fun v _ => b.primal v r
    primalStatus := fun _ => b.primalStatus r
    dualStatus := fun _ => b.dualStatus r
    dual := fun ci _ => b.dual ci r }

theorem reportedDual_alone (b : Backend α) (r : Nat) :
    (b.alone r).reportedDual r = b.reportedDual r := rfl

variable [Scalar α]

section

variable (b : Backend α) (settings : Settings α) (r : Nat)

/-! ### Duals -/

theorem objectiveGradient_alone : (b.alone r).objectiveGradient r = b.objectiveGradient r := rfl

theorem adjointEntry_alone : (b.alone r).adjointEntry settings r = b.adjointEntry settings r := by
  funext v ci
  unfold adjointEntry reportedScalarDual reportedVectorDual
  rw [reportedDual_alone]
  rfl

theorem familyAdjointEntry_alone :
    (b.alone r).familyAdjointEntry settings r = b.familyAdjointEntry settings r := by
  funext excluded v family
  unfold familyAdjointEntry
  rw [adjointEntry_alone]
  rfl

theorem reducedCost_alone : (b.alone r).reducedCost settings r = b.reducedCost settings r := by
  funext excluded v
  unfold reducedCost
  rw [objectiveGradient_alone, familyAdjointEntry_alone]
  rfl

theorem stationaryDual_alone :
    (b.alone r).stationaryDual settings r = b.stationaryDual settings r := by
  funext ci
  unfold stationaryDual
  rw [reducedCost_alone]
  rfl

theorem recoverDual_alone : (b.alone r).recoverDual settings r = b.recoverDual settings r := by
  funext ci
  unfold recoverDual
  rw [stationaryDual_alone]

/-! ### The dual objective -/

theorem scalarDualOrRecovered_alone :
    (b.alone r).scalarDualOrRecovered settings r = b.scalarDualOrRecovered settings r := by
  funext ci
  unfold scalarDualOrRecovered reportedScalarDual
  rw [stationaryDual_alone, reportedDual_alone]

theorem loggedDualTerm_alone :
    (b.alone r).loggedDualTerm settings r = b.loggedDualTerm settings r := by
  funext ci
  unfold loggedDualTerm dualTerm reportedVectorDual
  rw [scalarDualOrRecovered_alone, reportedDual_alone]
  rfl

theorem dualObjectiveValue_alone :
    (b.alone r).dualObjectiveValue settings r = b.dualObjectiveValue settings r := by
  unfold dualObjectiveValue dualObjective addFamilyDualObjective
  rw [loggedDualTerm_alone]
  rfl

/-! ### Values -/

theorem valueAtPoint_alone : (b.alone r).valueAtPoint settings r = b.valueAtPoint settings r := rfl

theorem objectiveValue_alone :
    (b.alone r).objectiveValue settings r = b.objectiveValue settings r := by
  unfold objectiveValue
  rw [valueAtPoint_alone]
  rfl

theorem constraintValue_alone :
    (b.alone r).constraintValue settings r = b.constraintValue settings r := by
  funext ci
  unfold constraintValue
  rw [valueAtPoint_alone]
  rfl

end

/-- Nothing about result `r` is different: what is reported of it, and what is recovered at it,
under any settings, with the log. -/
structure SameAt (b b' : Backend α) (r : Nat) : Prop where
  primal : ∀ v, b'.primal v r = b.primal v r
  dual : ∀ ci, b'.dual ci r = b.dual ci r
  primalStatus : b'.primalStatus r = b.primalStatus r
  dualStatus : b'.dualStatus r = b.dualStatus r
  objectiveValue : ∀ settings, b'.objectiveValue settings r = b.objectiveValue settings r
  constraintValue : ∀ settings ci,
    b'.constraintValue settings r ci = b.constraintValue settings r ci
  recoverDual : ∀ settings ci, b'.recoverDual settings r ci = b.recoverDual settings r ci
  dualObjectiveValue : ∀ settings,
    b'.dualObjectiveValue settings r = b.dualObjectiveValue settings r
  reducedCost : ∀ settings excluded v,
    b'.reducedCost settings r excluded v = b.reducedCost settings r excluded v

theorem SameAt.of_alone {b b' : Backend α} {r : Nat} (h : b'.alone r = b.alone r) :
    b.SameAt b' r where
  primal v := congrArg (fun b => b.primal v r) h
  dual ci := congrArg (fun b => b.dual ci r) h
  primalStatus := congrArg (fun b => b.primalStatus r) h
  dualStatus := congrArg (fun b => b.dualStatus r) h
  objectiveValue settings := by rw [← objectiveValue_alone b', h, objectiveValue_alone]
  constraintValue settings ci := by rw [← constraintValue_alone b', h, constraintValue_alone]
  recoverDual settings ci := by rw [← recoverDual_alone b', h, recoverDual_alone]
  dualObjectiveValue settings := by
    rw [← dualObjectiveValue_alone b', h, dualObjectiveValue_alone]
  reducedCost settings excluded v := by rw [← reducedCost_alone b', h, reducedCost_alone]

end DualRecovery.Backend
