import DualRecovery.Proofs.Recovery.Steps

/-! The log of what a backend leaves to be computed, whatever its answers. Every constraint that
contributes to a result emits one event with its contribution, in the order of the computation and
up to the first step that fails, and one event more tells the outcome. The logged contributions to
a dual objective add up to it, and those to a reduced cost to what it is short of the gradient. -/

namespace DualRecovery

open Scalar Traced

/-- The contribution that the fields of an event name for an operation. -/
def Event.contribution? {α : Type} (operation : String) (e : Event α) : Option α :=
  match e.fields.lookup "operation", e.fields.lookup "contribution" with
  | some (.text s), some (.scalar x) => if s = operation then some x else none
  | _, _ => none

namespace Backend

variable {α : Type} [Scalar α] {b : Backend α} {settings : Settings α} {r : ℕ}
  {ci excluded : ConstraintIndex} {v : VariableIndex}

/-! ### The terms of a dual objective -/

/-- The contributions to a dual objective that the events name. -/
def terms (events : List (Event α)) : List α :=
  events.filterMap (Event.contribution? Quantity.dualObjectiveValue.name)

omit [Scalar α] in
theorem terms_append (events events' : List (Event α)) :
    terms (events ++ events') = terms events ++ terms events' := List.filterMap_append

/-- What a recovery emits does not count twice. -/
theorem terms_dualSteps : terms (Step.events (b.dualSteps settings r ci)) = [] := by
  refine List.filterMap_eq_nil_iff.mpr fun e he => ?_
  obtain ⟨other, v, x, rfl⟩ := mem_dualSteps (Step.mem_of_mem_events he)
  rfl

theorem terms_loggedDualTerm {x : α} (h : (b.loggedDualTerm settings r ci).Returns x) :
    terms (b.loggedDualTerm settings r ci).events = [x] := by
  have htakes : (b.loggedDualTerm settings r ci).Takes (b.termSteps settings r ci) :=
    loggedDualTerm_takes ci
  have hnone := htakes.failure
  rw [failure?_eq_none h, termSteps, Step.failure?_append, eq_comm, Option.or_eq_none_iff] at hnone
  rw [htakes.events, termSteps, Step.events_append_of_none hnone.1, terms_append, asStep, h]
  split
  · rw [terms_dualSteps]
    rfl
  · rfl

omit [Scalar α] in
/-- A loop adds the terms that its steps add. -/
theorem foldlM_eq_terms [Add α] {κ : Type} {step : α → κ → Traced α α} {ks : List κ}
    (hstep : ∀ k ∈ ks, ∀ c c', (step c k).Returns c' →
      c' = (terms (step c k).events).foldl (· + ·) c) {c c' : α}
    (h : (ks.foldlM step c).Returns c') :
    c' = (terms (ks.foldlM step c).events).foldl (· + ·) c :=
  Returns.foldlM_events (fun c events => (terms events).foldl (· + ·) c) (fun _ => rfl)
    (fun c events events' => by rw [terms_append, List.foldl_append]) hstep h

theorem addFamilyDualObjective_eq {value value' : α} {family : Family}
    (h : (b.addFamilyDualObjective settings r value family).Returns value') :
    value' = (terms (b.addFamilyDualObjective settings r value family).events).foldl (· + ·)
      value := by
  unfold addFamilyDualObjective at h ⊢
  split at h
  · exact (returns_fail.mp h).elim
  · next hquadratic =>
    rw [if_neg hquadratic]
    split at h
    · next hkind =>
      rw [if_pos hkind]
      exact (returns_pure.mp h).symm
    · next hkind =>
      rw [if_neg hkind]
      refine foldlM_eq_terms (fun ci _ c c' hstep => ?_) h
      obtain ⟨x, hx, hc'⟩ := returns_bind.mp hstep
      rw [events_bind_pure, terms_loggedDualTerm hx]
      exact (returns_pure.mp hc').symm

/-- The logged terms, added up from zero, give the dual objective. -/
theorem isDualObjective_of_returns {value : α} (h : (b.dualObjective settings r).Returns value) :
    b.IsDualObjective r ((terms (b.dualObjective settings r).events).foldl (· + ·) 0) value := by
  obtain ⟨f, hf, hvalue, heq⟩ := exists_dualObjective (b := b) (r := r)
  rw [heq] at h ⊢
  obtain ⟨sum, hsum, h⟩ := returns_bind.mp h
  have hadds := foldlM_eq_terms (fun family _ c c' hstep => addFamilyDualObjective_eq hstep) hsum
  rw [hsum.events_bind, hf sum, List.append_nil, ← hadds]
  exact hvalue sum value h

/-! ### The entries of a reduced cost -/

/-- The contributions to the dual of a variable that the events name. -/
def entries (events : List (Event α)) : List α :=
  events.filterMap (Event.contribution? "variable_dual")

omit [Scalar α] in
theorem entries_append (events events' : List (Event α)) :
    entries (events ++ events') = entries events ++ entries events' := List.filterMap_append

theorem eq_zero_of_skips {x : α} (hskips : b.skips settings v ci = true)
    (h : (b.adjointEntry settings r v ci).Returns x) : x = 0 := by
  unfold adjointEntry at h
  unfold skips at hskips
  cases hf : b.function ci with
  | error cause =>
    rw [hf] at hskips
    cases hskips
  | ok f =>
    rw [hf] at h hskips
    rw [ofQuery_ok, pure_bind] at h
    cases f with
    | scalarAffine f =>
      dsimp only at h hskips
      rw [if_pos hskips] at h
      exact (returns_pure.mp h).symm
    | vectorAffine f =>
      dsimp only at h hskips
      cases hcolumn : f.coefficient v with
      | error cause =>
        rw [hcolumn] at hskips
        cases hskips
      | ok column =>
        rw [hcolumn] at h hskips
        rw [ofChecked_ok, pure_bind, if_pos hskips] at h
        exact (returns_pure.mp h).symm
    | _ => cases hskips

section

variable {b : Backend ℚ} {settings : Settings ℚ}

theorem adjointEntry_eq_sum {x : ℚ} (h : (b.adjointEntry settings r v ci).Returns x) :
    x = (entries (b.adjointEntry settings r v ci).events).sum := by
  have hemits : (b.adjointEntry settings r v ci).Emits fun x =>
      if b.skips settings v ci then none else some (.dualContribution ci v x) := adjointEntry_emits
  rw [Emits, asStep, h] at hemits
  rw [hemits]
  cases hskips : b.skips settings v ci with
  | true => exact eq_zero_of_skips hskips h
  | false => exact (List.sum_singleton).symm

theorem familyAdjointEntry_eq_sum {family : Family} {x : ℚ}
    (h : (b.familyAdjointEntry settings r excluded v family).Returns x) :
    x = (entries (b.familyAdjointEntry settings r excluded v family).events).sum := by
  unfold familyAdjointEntry at h ⊢
  split at h
  · exact (returns_fail.mp h).elim
  · next hquadratic =>
    rw [if_neg hquadratic]
    split at h
    · next hwise =>
      obtain ⟨-, -, h⟩ := returns_bind.mp h
      rw [if_pos hwise, events_bind_pure, events_forM_eq_nil fun _ _ => events_checkUnrelated]
      exact (returns_pure.mp h).symm
    · next hwise =>
      rw [if_neg hwise]
      have hsum := Returns.foldlM_events (fun c events => c + (entries events).sum) add_zero
        (fun c events events' => by rw [entries_append, List.sum_append, add_assoc])
        (fun ci _ c c' hstep => ?_) h
      · rw [hsum, zero_add]
      · obtain ⟨x, hx, hc'⟩ := returns_bind.mp hstep
        rw [events_bind_pure, ← adjointEntry_eq_sum hx]
        exact (returns_pure.mp hc').symm

/-- In exact arithmetic, a reduced cost is the gradient less the contributions that were logged. -/
theorem reducedCost_eq_sub_sum {cost : ℚ}
    (h : (b.reducedCost settings r excluded v).Returns cost) :
    ∃ gradient, (b.objectiveGradient r v).Returns gradient ∧
      cost = gradient - (entries (b.reducedCost settings r excluded v).events).sum := by
  unfold reducedCost at h ⊢
  obtain ⟨gradient, hgradient, h⟩ := returns_bind.mp h
  refine ⟨gradient, hgradient, ?_⟩
  rw [hgradient.events_bind, events_objectiveGradient, List.nil_append]
  refine Returns.foldlM_events (fun c events => c - (entries events).sum) sub_zero
    (fun c events events' => ?_) (fun family _ c c' hstep => ?_) h
  · rw [entries_append, List.sum_append, sub_sub]
  · obtain ⟨x, hx, hc'⟩ := returns_bind.mp hstep
    rw [events_bind_pure, ← familyAdjointEntry_eq_sum hx]
    exact (returns_pure.mp hc').symm

end

/-! ### The four quantities -/

theorem events_valueAtPoint (f : ModelFunction α) : (b.valueAtPoint settings r f).events = [] := by
  refine events_bind_eq_nil rfl fun x => events_bind_eq_nil ?_ fun omits => ?_
  · unfold omitsConstant
    split <;> rfl
  · split <;> rfl

/-- The log of what is left to be computed accounts for it. The two values at the point emit
nothing but their outcome; a recovered dual emits the contributions to the reduced costs before its
outcome, and the dual objective those of its terms and of the recoveries that they need. Added up
from zero, the terms that were logged give the dual objective, and in exact arithmetic a reduced
cost is the gradient less the contributions that were logged. -/
theorem log_accounts :
    (∀ (α : Type) [Scalar α] (b : Backend α) (settings : Settings α) (r : ℕ),
      (b.objectiveValue settings r).Accounts .objectiveValue
          [(b.objectiveValue settings r).asStep fun _ => none] ∧
        (∀ ci, (b.constraintValue settings r ci).Accounts .constraintPrimal
          [(b.constraintValue settings r ci).asStep fun _ => none]) ∧
        (∀ ci, (b.recoverDual settings r ci).Accounts .constraintDual
          (b.dualSteps settings r ci)) ∧
        (b.dualObjectiveValue settings r).Accounts .dualObjectiveValue
          (b.objectiveSteps settings r) ∧
        ∀ value, (b.dualObjectiveValue settings r).Returns value →
          b.IsDualObjective r
            ((terms (b.dualObjectiveValue settings r).events).foldl (· + ·) 0) value) ∧
    ∀ (b : Backend ℚ) (settings : Settings ℚ) (r : ℕ) (excluded : ConstraintIndex)
      (v : VariableIndex) (cost : ℚ), (b.reducedCost settings r excluded v).Returns cost →
      ∃ gradient, (b.objectiveGradient r v).Returns gradient ∧
        cost = gradient - (entries (b.reducedCost settings r excluded v).events).sum := by
  refine ⟨fun α _ b settings r => ⟨?_, fun ci => ?_, fun ci => ?_, ?_, fun value h => ?_⟩,
    fun b settings r excluded v cost h => reducedCost_eq_sub_sum h⟩
  · apply accounts_of_silent
    exact events_bind_eq_nil rfl fun f => events_valueAtPoint f
  · apply accounts_of_silent
    exact events_bind_eq_nil rfl fun f => events_valueAtPoint f
  · refine stationaryDual_takes.concluded (fun e he => ?_) _ _ _
    obtain ⟨other, v, x, rfl⟩ := mem_dualSteps he
    rfl
  · refine dualObjective_takes.concluded (fun e he => ?_) _ _ _
    rcases mem_objectiveSteps he with ⟨ci, v, x, rfl⟩ | ⟨ci, x, rfl⟩ <;> rfl
  · rw [dualObjectiveValue, returns_concluded] at h
    have hevents : terms (b.dualObjectiveValue settings r).events =
        terms (b.dualObjective settings r).events := by
      rw [dualObjectiveValue, h.events_concluded, terms_append]
      exact List.append_nil _
    rw [hevents]
    exact isDualObjective_of_returns h

/-- A bound whose dual is to be recovered, and a constraint whose dual is reported. -/
def priced : Backend ℚ := (Store.runAll .empty
  [.addVariables 1, .addConstraint (.singleVariable ⟨0⟩) (.greaterThan 1),
    .addConstraint (.scalarAffine ⟨[⟨2, ⟨0⟩⟩], 0⟩) (.lessThan 4),
    .setObjective .minimize (.scalarAffine ⟨[⟨3, ⟨0⟩⟩], 5⟩),
    .reportDual 0 ⟨⟨.scalarAffine, .lessThan⟩, 1⟩ (.scalar (-1))]).backend

/-- The terms are `1 * 5` and `4 * -1`, and the constant is five. The reduced cost is `3 - -2`. -/
theorem log_accounts_priced :
    (priced.dualObjectiveValue Settings.default 0).Returns 6 ∧
      priced.IsDualObjective 0 1 6 ∧
      (∃ last : Event ℚ, (priced.dualObjectiveValue Settings.default 0).events =
          [.dualContribution ⟨⟨.scalarAffine, .lessThan⟩, 1⟩ ⟨0⟩ (-2),
            .objectiveContribution ⟨⟨.singleVariable, .greaterThan⟩, 0⟩ 5,
            .objectiveContribution ⟨⟨.scalarAffine, .lessThan⟩, 1⟩ (-4), last] ∧
        last.Tells .dualObjectiveValue (priced.dualObjectiveValue Settings.default 0)) ∧
      ∃ gradient : ℚ, (priced.objectiveGradient 0 ⟨0⟩).Returns gradient ∧
        5 = gradient - -2 := by
  have hvalue : (priced.dualObjectiveValue Settings.default 0).Returns 6 := by decide +kernel
  have hterms : (terms (priced.dualObjectiveValue Settings.default 0).events).foldl (· + ·) 0 =
      1 := by decide +kernel
  have hsteps : Step.events (priced.objectiveSteps Settings.default 0) =
      [.dualContribution ⟨⟨.scalarAffine, .lessThan⟩, 1⟩ ⟨0⟩ (-2),
        .objectiveContribution ⟨⟨.singleVariable, .greaterThan⟩, 0⟩ 5,
        .objectiveContribution ⟨⟨.scalarAffine, .lessThan⟩, 1⟩ (-4)] := by decide +kernel
  have hentries : (entries (priced.reducedCost Settings.default 0
      ⟨⟨.singleVariable, .greaterThan⟩, 0⟩ ⟨0⟩).events).sum = -2 := by decide +kernel
  obtain ⟨haccounts, hcost⟩ := log_accounts
  obtain ⟨-, -, -, haccounts, hobjective⟩ := haccounts ℚ priced Settings.default 0
  have hsum := hobjective 6 hvalue
  rw [hterms] at hsum
  obtain ⟨last, hevents, hlast⟩ := haccounts.events fun cause h => by
    rw [hvalue] at h
    cases h
  rw [hsteps] at hevents
  obtain ⟨gradient, hgradient, hcost⟩ := hcost priced Settings.default 0
    ⟨⟨.singleVariable, .greaterThan⟩, 0⟩ ⟨0⟩ 5 (by decide +kernel)
  rw [hentries] at hcost
  exact ⟨hvalue, hsum, ⟨last, hevents, hlast⟩, gradient, hgradient, hcost⟩

end Backend

end DualRecovery
