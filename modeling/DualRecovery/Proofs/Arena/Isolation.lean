import DualRecovery.Proofs.Arena.Refinement
import DualRecovery.Proofs.Rational
import DualRecovery.Proofs.Recovery.Locality
import DualRecovery.Proofs.Store.Effect

/-! Results do not interfere. Whatever is reported of other results, whether it is carried out or
refused and however many results it brings about, a result that there is keeps all that was reported
of it and all that is recovered at it. -/

namespace DualRecovery.Arena

variable {α : Type} {a : Arena α} {r s : ℕ}

/-! ### One report -/

theorem report_of_getElem? {report : Report α a.variableCount} (h : a.reports[r]? = some report) :
    a.report r = .ok report := by
  rw [Arena.report, h]

theorem report_modifyReport (hr : r < a.reports.length) (hne : r ≠ s)
    (change : Report α a.variableCount → Report α a.variableCount) :
    (a.modifyReport s change).reports[r]? = a.reports[r]? := by
  show (Report.modifyAt s change a.reports)[r]? = _
  rw [Report.getElem?_modifyAt, if_neg hne, if_pos hr]

/-- What there is to ask about a result stays as it is when another report is changed. -/
theorem alone_modifyReport (hr : r < a.reports.length) (hne : r ≠ s)
    (change : Report α a.variableCount → Report α a.variableCount) :
    (a.modifyReport s change).backend.alone r = a.backend.alone r := by
  have hget := report_modifyReport hr hne change
  have hreport : (a.modifyReport s change).report r = a.report r := by
    have hsome := List.getElem?_eq_getElem hr
    exact (report_of_getElem? (hget.trans hsome)).trans (report_of_getElem? hsome).symm
  have hprimal (v) : (a.modifyReport s change).primal v r = a.primal v r := by
    unfold primal
    rw [hreport]
    rfl
  have hdual (ci) : (a.modifyReport s change).dual ci r = a.dual ci r := by
    unfold dual
    rw [hreport]
    rfl
  have hprimalStatus : (a.modifyReport s change).primalStatus r = a.primalStatus r := by
    unfold primalStatus
    rw [hget]
    rfl
  have hdualStatus : (a.modifyReport s change).dualStatus r = a.dualStatus r := by
    unfold dualStatus
    rw [hget]
    rfl
  unfold Backend.alone
  show ({ a.backend with
    primal := fun v _ => (a.modifyReport s change).primal v r
    primalStatus := fun _ => (a.modifyReport s change).primalStatus r
    dualStatus := fun _ => (a.modifyReport s change).dualStatus r
    dual := fun ci _ => (a.modifyReport s change).dual ci r } : Backend α) = _
  simp only [hprimal, hdual, hprimalStatus, hdualStatus]
  rfl

/-- A report is refused, or it changes the report of the result that it is of. -/
theorem run_of_result? {command : Command α} (h : command.result? = some s) :
    (a.run command).arena = a ∨ ∃ change, (a.run command).arena = a.modifyReport s change := by
  cases command with
  | addVariable | addVariables _ | addConstraint _ _ | setObjective _ _ => cases h
  | reportPrimalStatus r status =>
    obtain rfl := Option.some.inj h
    exact Or.inr ⟨_, rfl⟩
  | reportDualStatus r status =>
    obtain rfl := Option.some.inj h
    exact Or.inr ⟨_, rfl⟩
  | reportPrimal r v x =>
    obtain rfl := Option.some.inj h
    rw [run, reportPrimal]
    split
    · exact Or.inr ⟨_, rfl⟩
    · exact Or.inl rfl
  | reportPrimals r values =>
    obtain rfl := Option.some.inj h
    rw [run, reportPrimals]
    split
    · exact Or.inr ⟨_, rfl⟩
    · exact Or.inl rfl
  | reportDual r ci y =>
    obtain rfl := Option.some.inj h
    rw [run, reportDual]
    unfold checked
    split
    · exact Or.inr ⟨_, rfl⟩
    · exact Or.inl rfl

theorem alone_run (hr : r < a.reports.length) {command : Command α}
    (h : command.result? = some s) (hne : r ≠ s) :
    r < (a.run command).arena.reports.length ∧
      (a.run command).arena.backend.alone r = a.backend.alone r := by
  rcases run_of_result? (a := a) h with heq | ⟨change, heq⟩
  · rw [heq]
    exact ⟨hr, rfl⟩
  · rw [heq]
    refine ⟨?_, alone_modifyReport hr hne change⟩
    exact hr.trans_le ((le_max_left _ _).trans_eq (Report.length_modifyAt s change a.reports).symm)

/-! ### Many reports -/

theorem alone_runAll (hr : r < a.reports.length) {commands : List (Command α)}
    (h : ∀ command ∈ commands, ∃ s, command.result? = some s ∧ r ≠ s) :
    r < (a.runAll commands).reports.length ∧
      (a.runAll commands).backend.alone r = a.backend.alone r := by
  induction commands generalizing a with
  | nil => exact ⟨hr, rfl⟩
  | cons command commands ih =>
    rw [List.forall_mem_cons] at h
    obtain ⟨⟨s, hs, hne⟩, hrest⟩ := h
    obtain ⟨hr', hfirst⟩ := alone_run hr hs hne
    obtain ⟨hr'', hall⟩ := ih hr' hrest
    exact ⟨hr'', hall.trans hfirst⟩

/-- Reports of other results, carried out or refused, make no difference to a result that there
is. -/
theorem sameAt_reports [Scalar α] (hr : r < a.reports.length) (commands : List (Command α))
    (h : ∀ command ∈ commands, ∃ s, command.result? = some s ∧ r ≠ s) :
    r < (a.runAll commands).reports.length ∧
      a.backend.SameAt (a.runAll commands).backend r := by
  obtain ⟨hr', halone⟩ := alone_runAll hr h
  exact ⟨hr', .of_alone halone⟩

/-- Two variables under an affine constraint, one of them with a bound; of the first of two results
everything is reported but the dual of the bound. -/
def twoResults : Arena ℚ := runAll empty
  [.addVariables 2, .addConstraint (.scalarAffine ⟨[⟨1, ⟨0⟩⟩, ⟨1, ⟨1⟩⟩], 0⟩) (.lessThan 4),
    .addConstraint (.singleVariable ⟨0⟩) (.greaterThan 1),
    .setObjective .maximize (.scalarAffine ⟨[⟨5, ⟨0⟩⟩, ⟨2, ⟨1⟩⟩], 7⟩),
    .reportPrimals 0 [3, 1], .reportPrimalStatus 0 .feasiblePoint,
    .reportDual 0 ⟨⟨.scalarAffine, .lessThan⟩, 0⟩ (.scalar (-4)),
    .reportPrimal 1 ⟨0⟩ 2, .reportDualStatus 1 .infeasibilityCertificate]

/-- The last two of these are refused, and the one before them brings about three more results. -/
def reportsOfOthers : List (Command ℚ) :=
  [.reportDual 1 ⟨⟨.singleVariable, .greaterThan⟩, 1⟩ (.scalar 9), .reportPrimals 1 [8, 8],
    .reportPrimalStatus 4 .infeasibilityCertificate, .reportPrimals 6 [1],
    .reportDual 1 ⟨⟨.scalarAffine, .lessThan⟩, 0⟩ (.vector [1])]

theorem sameAt_reportsOfOthers :
    0 < twoResults.reports.length ∧
      (∀ command ∈ reportsOfOthers, ∃ s, command.result? = some s ∧ 0 ≠ s) ∧
      (twoResults.runAll reportsOfOthers).reports.length = 5 ∧
      ((twoResults.runAll reportsOfOthers).backend.recoverDual Settings.default 0
        ⟨⟨.singleVariable, .greaterThan⟩, 1⟩).outcome = .ok (.scalar (-1)) := by
  have hr : 0 < twoResults.reports.length := by decide +kernel
  have hothers : ∀ command ∈ reportsOfOthers, ∃ s, command.result? = some s ∧ 0 ≠ s := by
    simp [reportsOfOthers, Command.result?]
  obtain ⟨-, hsame⟩ := sameAt_reports hr reportsOfOthers hothers
  refine ⟨hr, hothers, by decide +kernel, ?_⟩
  rw [hsame.recoverDual]
  decide +kernel

end DualRecovery.Arena
