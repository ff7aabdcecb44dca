import DualRecovery.Proofs.Binary.Arithmetic
import DualRecovery.Proofs.ModelFunction.Constants
import DualRecovery.Proofs.Recovery.ReducedCost
import DualRecovery.Proofs.Recovery.Rows
import DualRecovery.Store.Command

/-! The values of functions at rays. A ray is a direction, and constants can be left out along it.
They are taken off the values again, which comes to the same just if the arithmetic lost nothing of
the terms in between. -/

namespace DualRecovery

open Scalar Traced

/-- An error stays distinct from others when it is told as one of a query. -/
theorem mapError_query_injective {β : Type} : Function.Injective
    fun x : Except (Failure QueryError) β => x.mapError (Failure.map RecoveryError.query) := by
  rintro (failure | b) (failure' | b') h
  · have hmap : failure.map RecoveryError.query = failure'.map .query := Except.error.inj h
    cases failure <;> cases failure' <;> cases hmap <;> rfl
  · cases h
  · cases h
  · obtain rfl : b = b' := Except.ok.inj h
    rfl

/-- A checked operation faults in an evaluation as it does in a recovery. -/
theorem outcome_ofChecked {α β : Type} (x : Except Fault β) :
    (ofChecked x : Traced α β).outcome = (orFault x).mapError (Failure.map .query) := by
  cases x <;> rfl

namespace Backend

variable {α : Type} [Scalar α] {b : Backend α} {settings : Settings α} {r : ℕ}

/-- What the evaluation of `f` at the reported point comes to, as a step of a recovery. -/
def evaluation (b : Backend α) (r : ℕ) (f : ModelFunction α) :
    Except (Failure RecoveryError) (Value α) :=
  (f.evaluate fun v => b.primal v r).mapError (Failure.map .query)

theorem outcome_valueAtPoint_of_omits (h : b.Omits settings r) (f : ModelFunction α) :
    (b.valueAtPoint settings r f).outcome =
      (f.evaluateAndSubtract fun v => b.primal v r).mapError (Failure.map .query) := by
  have homits : (b.omitsConstant settings r).Returns true :=
    returns_omitsConstant.mpr (decide_eq_true h).symm
  unfold valueAtPoint ModelFunction.evaluateAndSubtract
  cases f.evaluate fun v => b.primal v r with
  | error failure => rfl
  | ok value =>
    exact (homits.outcome_bind _).trans (outcome_ofChecked (value.subtract f.constant))

theorem outcome_valueAtPoint_of_not_omits (h : ¬b.Omits settings r) (f : ModelFunction α) :
    (b.valueAtPoint settings r f).outcome = b.evaluation r f := by
  have homits : (b.omitsConstant settings r).Returns false :=
    returns_omitsConstant.mpr (decide_eq_false h).symm
  unfold valueAtPoint evaluation
  cases f.evaluate fun v => b.primal v r with
  | error failure => rfl
  | ok value => exact homits.outcome_bind _

/-- At a ray, constants are left out just if they cancel. -/
theorem outcome_valueAtPoint_eq_iff [NeutralZero α] (h : b.Omits settings r)
    {f : ModelFunction α} (hrow : ∀ row ∈ f.rows, row < f.dimension) :
    (b.valueAtPoint settings r f).outcome = b.evaluation r f.withoutConstant ↔
      f.Cancels fun v => b.primal v r := by
  rw [outcome_valueAtPoint_of_omits h, ← ModelFunction.evaluateAndSubtract_eq_iff f hrow]
  exact mapError_query_injective.eq_iff

/-- In exact arithmetic all constants cancel. -/
theorem outcome_valueAtPoint_rat {b : Backend ℚ} {settings : Settings ℚ}
    (h : b.Omits settings r) {f : ModelFunction ℚ}
    (hrow : ∀ row ∈ f.rows, row < f.dimension) :
    (b.valueAtPoint settings r f).outcome = b.evaluation r f.withoutConstant :=
  (outcome_valueAtPoint_eq_iff h hrow).mpr (f.cancels_rat _)

/-- The objective value and the value of a constraint are those of their functions. Along a ray they
are those without the constants just if the constants cancel, at a point those with them. -/
theorem outcome_value_ray [NeutralZero α] {f : ModelFunction α}
    (hrow : ∀ row ∈ f.rows, row < f.dimension) {x : Traced α (Value α)}
    (hx : b.objective = .ok f ∧ x = b.objectiveValue settings r ∨
      ∃ ci, b.function ci = .ok f ∧ x = b.constraintValue settings r ci) :
    (b.Omits settings r →
        (x.outcome = b.evaluation r f.withoutConstant ↔ f.Cancels fun v => b.primal v r)) ∧
      (¬b.Omits settings r → x.outcome = b.evaluation r f) := by
  have houtcome : x.outcome = (b.valueAtPoint settings r f).outcome := by
    rcases hx with ⟨hobjective, rfl⟩ | ⟨ci, hfunction, rfl⟩
    · rw [objectiveValue, outcome_concluded, hobjective, ofQuery_ok, pure_bind]
    · rw [constraintValue, outcome_concluded, hfunction, ofQuery_ok, pure_bind]
  rw [houtcome]
  exact ⟨fun h => outcome_valueAtPoint_eq_iff h hrow,
    fun h => outcome_valueAtPoint_of_not_omits h f⟩

/-- The settings under which constants are left out of rays. -/
def directional : Settings Float := ⟨Settings.omitConstantPolicy, 0⟩

/-- A ray, and a vector constraint with constants that cancel. -/
def shifted : Backend Float := (Store.runAll .empty
  [.addVariables 2,
    .addConstraint (.vectorAffine ⟨[⟨0, ⟨1, ⟨0⟩⟩⟩, ⟨1, ⟨2, ⟨1⟩⟩⟩], [3, -1]⟩) (.nonnegativeCone 2),
    .reportPrimalStatus 0 .infeasibilityCertificate, .reportPrimals 0 [2, 5]]).backend

theorem outcome_value_ray_shifted :
    shifted.Omits directional 0 ∧
      (shifted.constraintValue directional 0 ⟨⟨.vectorAffine, .nonnegativeCone⟩, 0⟩).outcome =
        .ok (.vector [2, 10]) := by
  have homits : shifted.Omits directional 0 := ⟨rfl, by decide +kernel⟩
  have hfunction : shifted.function ⟨⟨.vectorAffine, .nonnegativeCone⟩, 0⟩ =
      .ok (.vectorAffine ⟨[⟨0, ⟨1, ⟨0⟩⟩⟩, ⟨1, ⟨2, ⟨1⟩⟩⟩], [3, -1]⟩) := by
    decide +kernel
  have hvalues : VectorAffine.rowValues ⟨[⟨0, ⟨1, ⟨0⟩⟩⟩, ⟨1, ⟨2, ⟨1⟩⟩⟩], [3, -1]⟩
      (fun v => shifted.primal v 0) = .ok [(0, 2), (1, 10)] := by
    decide +kernel
  obtain ⟨hray, -⟩ := outcome_value_ray (by decide) (.inr ⟨_, hfunction, rfl⟩)
  refine ⟨homits, ((hray homits).mpr ?_).trans (by decide +kernel)⟩
  intro values h
  obtain rfl := Except.ok.inj (h.symm.trans hvalues)
  decide +kernel

/-- A ray along which the objective grows, but by less than its constant is rounded by. -/
def steep : Backend Float := (Store.runAll .empty
  [.addVariable, .setObjective .minimize (.scalarAffine ⟨[⟨1, ⟨0⟩⟩], 9007199254740992⟩),
    .reportPrimalStatus 0 .infeasibilityCertificate, .reportPrimals 0 [1]]).backend

/-- Without the constant the value is one, but what is left of it is zero. -/
theorem not_outcome_value_ray :
    ¬∀ (b : Backend Float) (settings : Settings Float) (r : ℕ) (f : ModelFunction Float),
      (∀ row ∈ f.rows, row < f.dimension) → b.objective = .ok f →
      b.Omits settings r →
      (b.objectiveValue settings r).outcome = b.evaluation r f.withoutConstant := by
  intro h
  have hvalue := h steep directional 0 (.scalarAffine ⟨[⟨1, ⟨0⟩⟩], 9007199254740992⟩) (by decide)
    (by decide +kernel) ⟨rfl, by decide +kernel⟩
  revert hvalue
  decide +kernel

end Backend

end DualRecovery
