import DualRecovery.Proofs.Arena.Refinement
import DualRecovery.Proofs.Recovery.Opposite

/-! The opposite of the objective of an arena can be set, to be minimized, where the objective is
maximized, and all that is recovered then is the same but for the signs of the two objectives. -/

namespace DualRecovery

theorem ModelFunction.Fits.opposite {f : ModelFunction ℚ} {n : ℕ} (h : f.Fits n) :
    f.opposite.Fits n := by
  cases f with
  | singleVariable v => exact ⟨h.occurrences, h.rows⟩
  | scalarAffine f =>
    refine ⟨fun v hv => h.occurrences v ?_, h.rows⟩
    obtain ⟨t', ht', rfl⟩ := List.mem_map.mp hv
    obtain ⟨t, ht, rfl⟩ := List.mem_map.mp (show t' ∈ f.terms.map (·.opposite) from ht')
    exact List.mem_map.mpr ⟨t, ht, rfl⟩
  | _ => exact h

/-- The store with the opposite objective, minimized. -/
def Store.opposite (m : Store ℚ) : Store ℚ :=
  { m with sense := .minimize, objective := m.objective.opposite }

namespace Arena

variable {a : Arena ℚ}

/-- The arena with the opposite objective, minimized. -/
def opposite (a : Arena ℚ) : Arena ℚ :=
  { a with sense := .minimize, objective := a.objective.opposite }

theorem Represents.opposite {m : Store ℚ} (h : a.Represents m) :
    a.opposite.Represents m.opposite :=
  { h with
    objective := congrArg ModelFunction.opposite h.objective
    sense := rfl }

theorem Reachable.backend_opposite (ha : a.Reachable) :
    a.opposite.backend = a.backend.opposite := by
  obtain ⟨m, -, h⟩ := ha.exists_store
  rw [h.opposite.backend_eq, h.backend_eq]
  rfl

theorem Reachable.fits_objective (ha : a.Reachable) : a.objective.Fits a.variableCount := by
  obtain ⟨m, hm, h⟩ := ha.exists_store
  rw [h.objective, h.variableCount]
  exact hm.valid.objective

theorem Reachable.run_setObjective_opposite (ha : a.Reachable) :
    a.run (.setObjective .minimize a.objective.opposite) = ⟨.ok .done, a.opposite, []⟩ := by
  have hcheck : a.outline.verifyFunction a.objective.opposite = .ok () :=
    Store.verifyFunction_eq_ok_iff.mpr ha.fits_objective.opposite
  rw [run, setObjective, hcheck]
  rfl

/-- To maximize a single variable or a scalar affine function is to minimize its opposite: the
recovered duals are the same, with the same failures, and the values of the objective and of the
dual objective are opposite. -/
theorem recover_opposite (ha : a.Reachable) (hsense : a.sense = .maximize)
    (hobjective : a.objective.HasOpposite) :
    a.run (.setObjective .minimize a.objective.opposite) = ⟨.ok .done, a.opposite, []⟩ ∧
      ∀ (settings : Settings ℚ) (r : ℕ),
        (∀ ci, (a.opposite.backend.recoverDual settings r ci).outcome =
          (a.backend.recoverDual settings r ci).outcome) ∧
        (a.opposite.backend.objectiveValue settings r).outcome =
          (a.backend.objectiveValue settings r).outcome.map Value.opposite ∧
        (a.opposite.backend.dualObjectiveValue settings r).outcome =
          (a.backend.dualObjectiveValue settings r).outcome.map (-·) := by
  refine ⟨ha.run_setObjective_opposite, fun settings r => ?_⟩
  rw [ha.backend_opposite]
  refine ⟨fun ci => ?_, ?_, ?_⟩
  · rw [Backend.recoverDual_opposite hsense]
  · exact Backend.objectiveValue_opposite rfl hobjective
  · exact Backend.dualObjectiveValue_opposite hsense

/-- Two variables, one of them with a bound, to be maximized under an affine constraint whose dual
is reported; the other variable has no reported value at the second result. -/
def maximized : Arena ℚ := runAll empty
  [.addVariables 2, .addConstraint (.singleVariable ⟨0⟩) (.lessThan 3),
    .addConstraint (.scalarAffine ⟨[⟨1, ⟨0⟩⟩, ⟨1, ⟨1⟩⟩], 0⟩) (.lessThan 4),
    .setObjective .maximize (.scalarAffine ⟨[⟨5, ⟨0⟩⟩, ⟨2, ⟨1⟩⟩], 7⟩),
    .reportPrimals 0 [3, 1], .reportPrimal 1 ⟨0⟩ 3,
    .reportDual 0 ⟨⟨.scalarAffine, .lessThan⟩, 1⟩ (.scalar (-2))]

theorem recover_opposite_maximized :
    maximized.Reachable ∧ maximized.sense = .maximize ∧ maximized.objective.HasOpposite ∧
      (maximized.opposite.backend.recoverDual Settings.default 0
        ⟨⟨.singleVariable, .lessThan⟩, 0⟩).outcome = .ok (.scalar (-3)) ∧
      (maximized.opposite.backend.objectiveValue Settings.default 0).outcome =
        .ok (.scalar (-24)) ∧
      (maximized.opposite.backend.objectiveValue Settings.default 1).outcome =
        .error (.error (.query (.noPrimal ⟨1⟩))) ∧
      (maximized.opposite.backend.dualObjectiveValue Settings.default 0).outcome = .ok (-24) := by
  have ha : maximized.Reachable := ⟨_, rfl⟩
  have hsense : maximized.sense = .maximize := by decide +kernel
  have hobjective : maximized.objective.HasOpposite := by decide +kernel
  obtain ⟨hduals, hvalue, hdual⟩ := (recover_opposite ha hsense hobjective).2 Settings.default 0
  obtain ⟨-, herror, -⟩ := (recover_opposite ha hsense hobjective).2 Settings.default 1
  refine ⟨ha, hsense, hobjective, (hduals _).trans ?_, hvalue.trans ?_, herror.trans ?_,
    hdual.trans ?_⟩
  · decide +kernel
  · decide +kernel
  · decide +kernel
  · decide +kernel

end Arena

end DualRecovery
