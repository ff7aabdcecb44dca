import DualRecovery.Proofs.Arena.Refinement
import DualRecovery.Proofs.Recovery.Reporting

/-! Recovered duals can be reported, and nothing is recovered differently then: over any scalars, an
arena with the duals of some of its constraints on single variables filled in as they are recovered
has the dual objective and the recovered duals that it had without them. -/

namespace DualRecovery.Arena

open Traced

variable {α : Type} [Scalar α] {a : Arena α} {m : Store α} {settings : Settings α} {r : ℕ}
  {duals : List (ConstraintIndex × Value α)}

theorem Represents.answer_reportDuals (h : a.Represents m) (hm : m.Valid)
    (hr : r < m.results.length) (hduals : ∀ d ∈ duals, m.Recovers settings r d) :
    ∀ exchange ∈ a.transcript (duals.map fun d => .reportDual r d.1 d.2),
      exchange.answer = .ok .done := by
  induction duals generalizing a m with
  | nil => exact fun _ h => absurd h List.not_mem_nil
  | cons d duals ih =>
    rw [List.forall_mem_cons] at hduals
    obtain ⟨hd, hduals⟩ := hduals
    obtain ⟨hanswer, hrep⟩ := h.run (.reportDual r d.1 d.2)
    have hvalid := hm.run (.reportDual r d.1 d.2)
    rw [hd.run_eq hm] at hanswer hrep hvalid
    have hr' : r < (m.effect (.reportDual r d.1 d.2)).results.length := by
      rw [Store.length_results_effect]
      exact hr.trans_le (le_max_left _ _)
    have hrest := ih hrep hvalid hr' fun d' hd' => hd.effect hm hr (hduals d' hd')
    exact List.forall_mem_cons.mpr ⟨hanswer, hrest⟩

theorem Represents.recovers (h : a.Represents m) (hm : m.Valid) (hr : r < a.reports.length)
    {d : ConstraintIndex × Value α} (hmissing : ∀ y, a.backend.dual d.1 r ≠ .ok y)
    (hrecovered : (a.backend.recoverDual settings r d.1).Returns d.2) :
    m.Recovers settings r d := by
  rw [h.backend_eq] at hmissing hrecovered
  replace hrecovered : (m.backend.stationaryDual settings r d.1).outcome = .ok d.2 :=
    returns_concluded.mp hrecovered
  obtain ⟨c, hc, -⟩ := Store.exists_mem_of_recovered hm hrecovered
  refine ⟨hrecovered, Or.inl ?_⟩
  replace hmissing : ∀ y, m.dual d.1 r ≠ .ok y := hmissing
  rw [h.count] at hr
  have hmem : d.1 ∈ m.numbered.map (·.1) := List.mem_map_of_mem hc
  rw [Store.dual_eq, if_neg (not_not.mpr hmem), if_neg (Nat.not_le.mpr hr)] at hmissing ⊢
  cases hget : (m.resultAt r).duals.get? d.1 with
  | none => rfl
  | some y =>
    rw [hget] at hmissing
    exact absurd rfl (hmissing y)

/-- Duals that are recovered where none is reported can be reported, in any order. -/
theorem recoverDual_reportDuals (ha : a.Reachable) (hr : r < a.reports.length)
    (hmissing : ∀ d ∈ duals, ∀ y, a.backend.dual d.1 r ≠ .ok y)
    (hrecovered : ∀ d ∈ duals, (a.backend.recoverDual settings r d.1).Returns d.2) :
    (∀ exchange ∈ a.transcript (duals.map fun d => .reportDual r d.1 d.2),
        exchange.answer = .ok .done) ∧
      ((a.runAll (duals.map fun d => .reportDual r d.1 d.2)).backend.dualObjectiveValue
          settings r).outcome = (a.backend.dualObjectiveValue settings r).outcome ∧
      ∀ ci, (a.runAll (duals.map fun d => .reportDual r d.1 d.2)).backend.recoverDual
          settings r ci = a.backend.recoverDual settings r ci := by
  obtain ⟨m, hreachable, h⟩ := ha.exists_store
  have hm := hreachable.valid
  have hduals : ∀ d ∈ duals, m.Recovers settings r d := fun d hd =>
    h.recovers hm hr (hmissing d hd) (hrecovered d hd)
  rw [h.count] at hr
  have hsame := Store.SameRecovery.runAll hm hr hduals
  refine ⟨h.answer_reportDuals hm hr hduals, ?_, fun ci => ?_⟩
  · rw [(h.runAll _).backend_eq, h.backend_eq]
    unfold Backend.dualObjectiveValue
    rw [outcome_concluded, outcome_concluded, hsame.dualObjective]
  · rw [(h.runAll _).backend_eq, h.backend_eq]
    unfold Backend.recoverDual
    rw [hsame.stationaryDual]

/-- One variable with a bound, and two in a cone; an affine constraint has its dual reported. -/
def bounds : Arena ℚ := runAll empty
  [.addVariables 3, .addConstraint (.singleVariable ⟨0⟩) (.greaterThan 1),
    .addConstraint (.vectorOfVariables [⟨1⟩, ⟨2⟩]) (.nonnegativeCone 2),
    .addConstraint (.scalarAffine ⟨[⟨1, ⟨0⟩⟩, ⟨1, ⟨1⟩⟩, ⟨2, ⟨2⟩⟩], 0⟩) (.greaterThan 4),
    .setObjective .minimize (.scalarAffine ⟨[⟨3, ⟨0⟩⟩, ⟨2, ⟨1⟩⟩, ⟨5, ⟨2⟩⟩], 0⟩),
    .reportDual 0 ⟨⟨.scalarAffine, .greaterThan⟩, 2⟩ (.scalar 1)]

/-- The duals that `bounds` leaves to be recovered. -/
def boundDuals : List (ConstraintIndex × Value ℚ) :=
  [(⟨⟨.singleVariable, .greaterThan⟩, 0⟩, .scalar 2),
    (⟨⟨.vectorOfVariables, .nonnegativeCone⟩, 1⟩, .vector [1, 3])]

theorem recoverDual_reportDuals_bounds :
    bounds.Reachable ∧ 0 < bounds.reports.length ∧
      ((bounds.runAll (boundDuals.map fun d => .reportDual 0 d.1 d.2)).backend.dualObjectiveValue
        Settings.default 0).outcome =
          (bounds.backend.dualObjectiveValue Settings.default 0).outcome := by
  have ha : bounds.Reachable := ⟨_, rfl⟩
  have hr : 0 < bounds.reports.length := by decide +kernel
  have hmissing : ∀ d ∈ boundDuals, bounds.backend.dual d.1 0 = .error (.noDual d.1) := by
    decide +kernel
  have hrecovered : ∀ d ∈ boundDuals,
      (bounds.backend.recoverDual Settings.default 0 d.1).outcome = .ok d.2 := by
    decide +kernel
  have h := recoverDual_reportDuals ha hr
    (fun d hd y hy => by rw [hmissing d hd] at hy; cases hy) hrecovered
  exact ⟨ha, hr, h.2.1⟩

end DualRecovery.Arena
