import DualRecovery.Proofs.Recovery.Safety
import DualRecovery.Proofs.Store.Effect

/-! What becomes of recovery when a recovered dual is reported. The duals of constraints on single
variables are not read in recovering a dual; the dual objective reads a reported one where it would
recover the same. -/

namespace DualRecovery

open Traced

namespace Backend

variable {α : Type} [Scalar α] {b : Backend α} {settings : Settings α} {r : ℕ}
  {dual : ConstraintIndex → ℕ → Except QueryError (Value α)}

/-! ### Duals that are not read -/

omit [Scalar α] in
theorem reportedDual_congr {ci : ConstraintIndex} (h : dual ci r = b.dual ci r) :
    ({ b with dual } : Backend α).reportedDual r ci = b.reportedDual r ci :=
  congrArg (fun x => note (.query (.constraintDual ci r)) >>= fun _ => ofQuery x) h

theorem adjointEntry_congr {ci : ConstraintIndex} (h : dual ci r = b.dual ci r)
    (v : VariableIndex) :
    ({ b with dual } : Backend α).adjointEntry settings r v ci =
      b.adjointEntry settings r v ci := by
  unfold adjointEntry reportedScalarDual reportedVectorDual
  rw [reportedDual_congr h]

/-- The duals matter in the entries of the affine constraints only. -/
theorem reducedCost_congr {v : VariableIndex}
    (h : ∀ family ∈ b.families, family.kind.isAffine = true → ∀ ci ∈ b.indices family,
      ({ b with dual } : Backend α).adjointEntry settings r v ci = b.adjointEntry settings r v ci)
    (excluded : ConstraintIndex) :
    ({ b with dual } : Backend α).reducedCost settings r excluded v =
      b.reducedCost settings r excluded v := by
  refine congrArg (b.objectiveGradient r v >>= ·) (funext fun gradient => ?_)
  apply foldlM_congr_mem
  intro d family hfamily
  have hentry : ({ b with dual } : Backend α).familyAdjointEntry settings r excluded v family =
      b.familyAdjointEntry settings r excluded v family := by
    unfold familyAdjointEntry
    split
    · rfl
    · next hquadratic =>
      split
      · rfl
      · next hwise =>
        have haffine := FunctionKind.isAffine_iff.mpr
          ⟨Bool.eq_false_iff.mpr hquadratic, Bool.eq_false_iff.mpr hwise⟩
        apply foldlM_congr_mem
        intro total ci hci
        rw [h family hfamily haffine ci hci]
  rw [hentry]

/-- Only the duals of constraints that are neither quadratic nor on single variables matter. -/
theorem stationaryDual_congr
    (h : ∀ family ∈ b.families, family.kind.isAffine = true →
      ∀ ci ∈ b.indices family, dual ci r = b.dual ci r) (ci : ConstraintIndex) :
    ({ b with dual } : Backend α).stationaryDual settings r ci =
      b.stationaryDual settings r ci := by
  unfold stationaryDual
  have hcost : ({ b with dual } : Backend α).reducedCost settings r ci =
      b.reducedCost settings r ci := funext fun v =>
    reducedCost_congr (fun family hfamily haffine cj hcj =>
      adjointEntry_congr (h family hfamily haffine cj hcj) v) ci
  rw [hcost]

end Backend

namespace Store

variable {α : Type} [Scalar α] {m : Store α} {settings : Settings α} {r : ℕ}

/-! ### One report -/

/-- The duals of the store, with `y` as that of `ci` at result `r`. -/
def dualsWith (m : Store α) (r : ℕ) (ci : ConstraintIndex) (y : Value α) (cj : ConstraintIndex)
    (s : ℕ) : Except QueryError (Value α) :=
  if cj = ci ∧ s = r then .ok y else m.dual cj s

section

omit [Scalar α]

/-- A dual that is reported of a result that there is changes one answer. -/
theorem dual_effect_reportDual (hr : r < m.results.length) {ci : ConstraintIndex}
    (hci : ci ∈ m.numbered.map (·.1)) (y : Value α) (cj : ConstraintIndex) (s : ℕ) :
    (m.effect (.reportDual r ci y)).dual cj s = m.dualsWith r ci y cj s := by
  have hcount : (m.effect (.reportDual r ci y)).results.length = m.results.length := by
    rw [length_results_effect]
    exact max_eq_left hr
  have hnumbered : (m.effect (.reportDual r ci y)).numbered = m.numbered := rfl
  have hduals : ((m.effect (.reportDual r ci y)).resultAt s).duals.get? cj =
      if cj = ci ∧ s = r then some y else (m.resultAt s).duals.get? cj := by
    rw [resultAt_effect]
    by_cases hs : r = s
    · simp [Command.result?, Command.change, Assignment.get?_set, hs]
    · simp [Command.result?, hs, Ne.symm hs]
  rw [dualsWith, dual_eq, dual_eq, hcount, hnumbered, hduals]
  by_cases h : cj = ci ∧ s = r
  · obtain ⟨rfl, rfl⟩ := h
    rw [if_neg (not_not.mpr hci), if_neg (Nat.not_le.mpr hr), if_pos ⟨rfl, rfl⟩,
      if_pos ⟨rfl, rfl⟩]
  · rw [if_neg h, if_neg h]

theorem backend_effect_reportDual (hr : r < m.results.length) {ci : ConstraintIndex}
    (hci : ci ∈ m.numbered.map (·.1)) (y : Value α) :
    (m.effect (.reportDual r ci y)).backend = { m.backend with dual := m.dualsWith r ci y } := by
  have hcount : (m.effect (.reportDual r ci y)).results.length = m.results.length := by
    rw [length_results_effect]
    exact max_eq_left hr
  have hprimals (s) : ((m.effect (.reportDual r ci y)).resultAt s).primals =
      (m.resultAt s).primals := by
    rw [resultAt_effect]
    split <;> rfl
  have hprimal (v s) : (m.effect (.reportDual r ci y)).primal v s = m.primal v s := by
    rw [primal_eq, primal_eq, hcount, hprimals]
    rfl
  have hprimalStatus (s) : (m.effect (.reportDual r ci y)).primalStatus s = m.primalStatus s := by
    rw [primalStatus_eq, primalStatus_eq, resultAt_effect]
    split <;> rfl
  have hdualStatus (s) : (m.effect (.reportDual r ci y)).dualStatus s = m.dualStatus s := by
    rw [dualStatus_eq, dualStatus_eq, resultAt_effect]
    split <;> rfl
  show ({ m.backend with
    primal := (m.effect (.reportDual r ci y)).primal
    primalStatus := (m.effect (.reportDual r ci y)).primalStatus
    dualStatus := (m.effect (.reportDual r ci y)).dualStatus
    dual := (m.effect (.reportDual r ci y)).dual } : Backend α) = _
  rw [funext fun v => funext (hprimal v), funext hprimalStatus, funext hdualStatus,
    funext fun cj => funext (dual_effect_reportDual hr hci y cj)]
  rfl

theorem run_reportDual (hm : m.Valid) {p : ConstraintIndex × Constraint α} (hp : p ∈ m.numbered)
    {y : Value α} (hy : p.2.admits y = true) (r : ℕ) :
    m.run (.reportDual r p.1 y) = (.ok .done, m.effect (.reportDual r p.1 y)) := by
  have hcheck : m.verifyDual p.1 y = .ok () :=
    verifyDual_of_fits (constraint_of_mem_numbered hp) (hm.fits hp) hy
  rw [run, reportDual, hcheck]
  rfl

end

/-- What is recovered is the dual of a constraint on single variables, in the right shape. -/
theorem exists_mem_of_recovered (hm : m.Valid) {ci : ConstraintIndex} {y : Value α}
    (h : (m.backend.stationaryDual settings r ci).outcome = .ok y) :
    ∃ c, (ci, c) ∈ m.numbered ∧ c.function.kind.isVariableWise = true ∧ c.admits y = true := by
  rw [← m.answering_self] at h
  by_cases hci : ∃ c, (ci, c) ∈ m.numbered
  · obtain ⟨c, hc⟩ := hci
    have hmeets : ((m.answering m.primal m.dual).stationaryDual settings r ci).Meets _
        (m.Explains m.primal m.dual r none) :=
      stationaryDual_meets (p := (ci, c)) hm hc
    obtain ⟨hadmits, hwise⟩ := hmeets.of_ok h
    exact ⟨c, hc, hwise, hadmits⟩
  · rw [not_exists] at hci
    obtain ⟨hfunction, -⟩ := requested_explained m.primal m.dual (r := r) hci
    unfold Backend.stationaryDual at h
    rw [hfunction] at h
    cases h

/-- `d` is recovered as the dual of its constraint, and no other dual of it is reported. -/
structure Recovers (m : Store α) (settings : Settings α) (r : ℕ) (d : ConstraintIndex × Value α) :
    Prop where
  recovered : (m.backend.stationaryDual settings r d.1).outcome = .ok d.2
  reported : m.dual d.1 r = .error (.noDual d.1) ∨ m.dual d.1 r = .ok d.2

namespace Recovers

variable {d : ConstraintIndex × Value α}

theorem exists_mem (h : m.Recovers settings r d) (hm : m.Valid) :
    ∃ c, (d.1, c) ∈ m.numbered ∧ c.function.kind.isVariableWise = true ∧
      c.admits d.2 = true :=
  exists_mem_of_recovered hm h.recovered

/-- Recovery does not read the dual. -/
theorem stationaryDual_eq (h : m.Recovers settings r d) (hm : m.Valid) (ci : ConstraintIndex) :
    ({ m.backend with dual := m.dualsWith r d.1 d.2 } : Backend α).stationaryDual settings r ci =
      m.backend.stationaryDual settings r ci := by
  obtain ⟨c, hc, hwise, -⟩ := h.exists_mem hm
  apply Backend.stationaryDual_congr
  intro family _ haffine cj hcj
  obtain ⟨q, hq, rfl, rfl⟩ := exists_mem_of_mem_indices hcj
  refine if_neg fun hsame => ?_
  have hkind := kind_of_mem_numbered hc
  rw [← hsame.1] at hkind
  rw [FunctionKind.isAffine_iff, hkind, hwise] at haffine
  cases haffine.2

/-- Where the dual is read, it is the one that is recovered. -/
theorem scalarDualOrRecovered_outcome (h : m.Recovers settings r d) (hm : m.Valid)
    {q : ConstraintIndex × Constraint α} (hq : q ∈ m.numbered)
    (hscalar : q.2.function.kind.isScalar = true) :
    (({ m.backend with dual := m.dualsWith r d.1 d.2 } : Backend α).scalarDualOrRecovered
        settings r q.1).outcome =
      (m.backend.scalarDualOrRecovered settings r q.1).outcome := by
  unfold Backend.scalarDualOrRecovered
  rw [h.stationaryDual_eq hm]
  by_cases hqd : q.1 = d.1
  · obtain ⟨c, hc, hwise, hadmits⟩ := h.exists_mem hm
    obtain rfl : q = (d.1, c) := eq_of_mem_numbered hq hc hqd
    obtain ⟨a, ha⟩ := (Constraint.admits_iff_scalar hscalar).mp hadmits
    have hkind : d.1.family.kind.isVariableWise = true := by
      rw [kind_of_mem_numbered hc]
      exact hwise
    have hrecovered : (m.backend.stationaryDual settings r d.1 >>=
        Backend.asScalarDual d.1).Returns a :=
      returns_bind.mpr ⟨d.2, h.recovered, by rw [ha]; rfl⟩
    have hafter : m.dualsWith r d.1 d.2 d.1 r = .ok (.scalar a) := by
      rw [dualsWith, if_pos ⟨rfl, rfl⟩, ha]
    have hreturns : (m.backend.scalarDualOrRecovered settings r d.1).Returns a := by
      rcases h.reported with hnone | hsome
      · have hquery : (m.backend.reportedScalarDual r d.1).outcome =
            .error (.error (.query (.noDual d.1))) := by
          unfold Backend.reportedScalarDual Backend.reportedDual
          rw [show m.backend.dual d.1 r = _ from hnone]
          rfl
        refine (returns_recover_of_error hquery).mpr ⟨_, if_pos ⟨rfl, hkind⟩, hrecovered⟩
      · exact returns_recover.mpr (Or.inl (Backend.returns_reportedScalarDual.mpr (ha ▸ hsome)))
    exact (returns_recover.mpr (Or.inl (Backend.returns_reportedScalarDual.mpr hafter))).trans
      hreturns.symm
  · have hdual : m.dualsWith r d.1 d.2 q.1 r = m.dual q.1 r := if_neg fun hsame => hqd hsame.1
    unfold Backend.reportedScalarDual
    rw [Backend.reportedDual_congr hdual]

theorem dualTerm_outcome (h : m.Recovers settings r d) (hm : m.Valid)
    {q : ConstraintIndex × Constraint α} (hq : q ∈ m.numbered)
    (hkind : q.2.function.kind ≠ .vectorOfVariables) :
    (({ m.backend with dual := m.dualsWith r d.1 d.2 } : Backend α).dualTerm settings r q.1
        q.2.set q.2.function.constant).outcome =
      (m.backend.dualTerm settings r q.1 q.2.set q.2.function.constant).outcome := by
  have hshape := q.2.function.isScalar_constant
  unfold Backend.dualTerm
  cases hconstant : q.2.function.constant with
  | scalar constant =>
    rw [hconstant] at hshape
    exact outcome_bind_congr (h.scalarDualOrRecovered_outcome hm hq hshape.symm) fun y => rfl
  | vector constants =>
    rw [hconstant] at hshape
    -- a vector function that is no list of variables does not have the dual
    have hqd : q.1 ≠ d.1 := by
      intro hqd
      obtain ⟨c, hc, hwise, -⟩ := h.exists_mem hm
      obtain rfl : q = (d.1, c) := eq_of_mem_numbered hq hc hqd
      cases hfunction : c.function with
      | vectorOfVariables vs => exact hkind (congrArg ModelFunction.kind hfunction)
      | singleVariable v => simp [hfunction, ModelFunction.kind, FunctionKind.isScalar,
          Value.isScalar] at hshape
      | _ => simp [hfunction, ModelFunction.kind, FunctionKind.isVariableWise] at hwise
    have hdual : m.dualsWith r d.1 d.2 q.1 r = m.dual q.1 r := if_neg fun hsame => hqd hsame.1
    unfold Backend.reportedVectorDual
    rw [Backend.reportedDual_congr hdual]

theorem loggedDualTerm_outcome (h : m.Recovers settings r d) (hm : m.Valid)
    {q : ConstraintIndex × Constraint α} (hq : q ∈ m.numbered)
    (hkind : q.2.function.kind ≠ .vectorOfVariables) :
    (({ m.backend with dual := m.dualsWith r d.1 d.2 } : Backend α).loggedDualTerm settings r
        q.1).outcome = (m.backend.loggedDualTerm settings r q.1).outcome := by
  unfold Backend.loggedDualTerm
  simp only [backend_function hq, backend_set hq, ofQuery_ok, pure_bind]
  exact outcome_bind_congr (h.dualTerm_outcome hm hq hkind) fun _ => rfl

theorem addFamilyDualObjective_outcome (h : m.Recovers settings r d) (hm : m.Valid) (value : α)
    (family : Family) :
    (({ m.backend with dual := m.dualsWith r d.1 d.2 } : Backend α).addFamilyDualObjective
        settings r value family).outcome =
      (m.backend.addFamilyDualObjective settings r value family).outcome := by
  unfold Backend.addFamilyDualObjective
  split
  · rfl
  · split
    · rfl
    · next hkind =>
      apply outcome_foldlM_congr
      intro value ci hci
      obtain ⟨q, hq, rfl, rfl⟩ := exists_mem_of_mem_indices hci
      rw [kind_of_mem_numbered hq] at hkind
      exact outcome_bind_congr (h.loggedDualTerm_outcome hm hq hkind) fun _ => rfl

theorem dualObjective_outcome (h : m.Recovers settings r d) (hm : m.Valid) :
    (({ m.backend with dual := m.dualsWith r d.1 d.2 } : Backend α).dualObjective settings
        r).outcome = (m.backend.dualObjective settings r).outcome := by
  apply outcome_bind_congr _ fun _ => rfl
  apply outcome_foldlM_congr
  intro value family _
  exact h.addFamilyDualObjective_outcome hm value family

end Recovers

/-! ### Many reports -/

/-- What is recovered from `m'` is what is recovered from `m`. -/
structure SameRecovery (m m' : Store α) (settings : Settings α) (r : ℕ) : Prop where
  stationaryDual : ∀ ci, m'.backend.stationaryDual settings r ci =
    m.backend.stationaryDual settings r ci
  dualObjective : (m'.backend.dualObjective settings r).outcome =
    (m.backend.dualObjective settings r).outcome

namespace Recovers

variable {d : ConstraintIndex × Value α}

theorem run_eq (h : m.Recovers settings r d) (hm : m.Valid) :
    m.run (.reportDual r d.1 d.2) = (.ok .done, m.effect (.reportDual r d.1 d.2)) := by
  obtain ⟨c, hc, -, hadmits⟩ := h.exists_mem hm
  exact run_reportDual hm hc hadmits r

theorem backend_eq (h : m.Recovers settings r d) (hm : m.Valid) (hr : r < m.results.length) :
    (m.effect (.reportDual r d.1 d.2)).backend =
      { m.backend with dual := m.dualsWith r d.1 d.2 } := by
  obtain ⟨c, hc, -⟩ := h.exists_mem hm
  exact backend_effect_reportDual hr (List.mem_map_of_mem hc) d.2

theorem sameRecovery (h : m.Recovers settings r d) (hm : m.Valid) (hr : r < m.results.length) :
    m.SameRecovery (m.effect (.reportDual r d.1 d.2)) settings r := by
  constructor
  · intro ci
    rw [h.backend_eq hm hr, h.stationaryDual_eq hm]
  · rw [h.backend_eq hm hr, h.dualObjective_outcome hm]

/-- What is recovered, for the same constraint or another, is still recovered after the report. -/
theorem effect (h : m.Recovers settings r d) (hm : m.Valid) (hr : r < m.results.length)
    {d' : ConstraintIndex × Value α} (h' : m.Recovers settings r d') :
    (m.effect (.reportDual r d.1 d.2)).Recovers settings r d' := by
  obtain ⟨c, hc, -⟩ := h.exists_mem hm
  constructor
  · rw [(h.sameRecovery hm hr).stationaryDual]
    exact h'.recovered
  · rw [dual_effect_reportDual hr (List.mem_map_of_mem hc), dualsWith]
    by_cases hsame : d'.1 = d.1
    · have hrecovered := h'.recovered
      rw [hsame, h.recovered] at hrecovered
      right
      rw [if_pos ⟨hsame, rfl⟩, Except.ok.inj hrecovered]
    · rw [if_neg fun heq => hsame heq.1]
      exact h'.reported

end Recovers

/-- Reports of recovered duals are all carried out, and leave recovery as it is. -/
theorem SameRecovery.runAll (hm : m.Valid) (hr : r < m.results.length)
    {duals : List (ConstraintIndex × Value α)} (hduals : ∀ d ∈ duals, m.Recovers settings r d) :
    m.SameRecovery (m.runAll (duals.map fun d => .reportDual r d.1 d.2)) settings r := by
  induction duals generalizing m with
  | nil => exact ⟨fun _ => rfl, rfl⟩
  | cons d duals ih =>
    rw [List.forall_mem_cons] at hduals
    obtain ⟨hd, hduals⟩ := hduals
    have hfirst := hd.sameRecovery hm hr
    have hm' : (m.effect (.reportDual r d.1 d.2)).Valid := by
      have hrun := hm.run (.reportDual r d.1 d.2)
      rwa [hd.run_eq hm] at hrun
    have hr' : r < (m.effect (.reportDual r d.1 d.2)).results.length := by
      rw [length_results_effect]
      exact hr.trans_le (le_max_left _ _)
    have hrest := ih hm' hr' fun d' hd' => hd.effect hm hr (hduals d' hd')
    show m.SameRecovery ((m.run (.reportDual r d.1 d.2)).2.runAll _) settings r
    rw [hd.run_eq hm]
    exact ⟨fun ci => (hrest.stationaryDual ci).trans (hfirst.stationaryDual ci),
      hrest.dualObjective.trans hfirst.dualObjective⟩

end Store

end DualRecovery
