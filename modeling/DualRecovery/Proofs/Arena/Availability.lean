import DualRecovery.Proofs.Arena.Refinement
import DualRecovery.Proofs.Recovery.Availability

/-! Exactly when the dual objective of an arena is found: every affine constraint has to have its
dual reported, and every constraint on one variable to have it reported or recoverable. Duals of
lists of variables do not count, and are not asked for. -/

namespace DualRecovery.Arena

open Traced

/-- A dual of the constraint is reported. -/
def HasDual {α : Type} (a : Arena α) (r : ℕ) (ci : ConstraintIndex) : Prop :=
  ∃ y, a.dual ci r = .ok y

theorem Represents.hasDual_iff {a : Arena ℚ} {m : Store ℚ} (h : a.Represents m) {r : ℕ}
    {ci : ConstraintIndex} : a.HasDual r ci ↔ m.HasDual r ci := by
  rw [HasDual, h.dual, Store.HasDual]

/-- When the dual objective is found, and that nothing is asked for but duals of affine constraints
and of constraints on one variable. -/
theorem exists_dualObjectiveValue_iff {a : Arena ℚ} (ha : a.Reachable) {settings : Settings ℚ}
    (hs : settings.validate = .ok ()) (r : ℕ) :
    ((∃ x, (a.backend.dualObjectiveValue settings r).Returns x) ↔
      (∀ p ∈ a.constraints.entries, p.2.function.kind.isQuadratic = false) ∧
      (∀ p ∈ a.constraints.entries, p.2.function.kind.isAffine = true → a.HasDual r p.1) ∧
      (∀ p ∈ a.constraints.entries, ∀ v, p.2.function = .singleVariable v → a.HasDual r p.1 ∨
        r < a.reports.length ∧ ∃ x, (a.backend.reducedCost settings r p.1 v).Returns x) ∧
      (a.sense = .feasibility ∨ (a.dualStatus r).isRay = true ∨
        a.objective.kind = .singleVariable ∨ a.objective.kind = .scalarAffine)) ∧
    ∀ q ∈ (a.backend.dualObjectiveValue settings r).queries, ∃ p ∈ a.constraints.entries,
      p.2.function.kind ≠ .vectorOfVariables ∧ p.2.function.kind.isQuadratic = false ∧
        q = .constraintDual p.1 r := by
  obtain ⟨m, hm, hrep⟩ := ha.exists_store
  have ht := Settings.zeroTolerance_nonneg hs
  simp only [hrep.backend_eq, hrep.constraints, hrep.hasDual_iff, hrep.count, hrep.sense,
    hrep.dualStatus, hrep.objective]
  constructor
  · have hgradient : m.HasGradient r ↔ (m.sense = .feasibility ∨ (m.dualStatus r).isRay = true ∨
        m.objective.kind = .singleVariable ∨ m.objective.kind = .scalarAffine) := or_left_comm
    rw [(Store.dualObjective_computes hm.valid ht).exists_returns, hgradient]
    simp only [Store.contributes_iff hm.valid ht, forall_and, and_assoc]
  · intro q hq
    obtain ⟨family, -, ⟨hquadratic, hvariables⟩, ci, hci, rfl⟩ :=
      Backend.dualObjectiveValue_asks ht q hq
    obtain ⟨p, hp, rfl, rfl⟩ := Store.exists_mem_of_mem_indices hci
    rw [Store.kind_of_mem_numbered hp] at hquadratic hvariables
    exact ⟨p, hp, hvariables, hquadratic, rfl⟩

/-- Three variables with bounds, and one equation. Of the duals that count, that of the first bound
is not reported. -/
def unreportedBound : Arena ℚ := runAll empty
  [.addVariables 3, .addConstraint (.singleVariable ⟨0⟩) (.greaterThan 1),
    .addConstraint (.singleVariable ⟨1⟩) (.lessThan 4),
    .addConstraint (.vectorOfVariables [⟨2⟩]) (.nonnegativeCone 1),
    .addConstraint (.scalarAffine ⟨[⟨1, ⟨0⟩⟩, ⟨2, ⟨2⟩⟩], 3⟩) (.equalTo 5),
    .setObjective .minimize (.scalarAffine ⟨[⟨4, ⟨0⟩⟩], 1⟩),
    .reportDual 0 ⟨⟨.singleVariable, .lessThan⟩, 1⟩ (.scalar (-2)),
    .reportDual 0 ⟨⟨.scalarAffine, .equalTo⟩, 3⟩ (.scalar 3)]

theorem exists_dualObjectiveValue_unreportedBound :
    unreportedBound.Reachable ∧ (Settings.default : Settings ℚ).validate = .ok () ∧
      (∃ x, (unreportedBound.backend.dualObjectiveValue Settings.default 0).Returns x) ∧
      .constraintDual ⟨⟨.vectorOfVariables, .nonnegativeCone⟩, 2⟩ 0 ∉
        (unreportedBound.backend.dualObjectiveValue Settings.default 0).queries := by
  have ha : unreportedBound.Reachable := ⟨_, rfl⟩
  have hs : (Settings.default : Settings ℚ).validate = .ok () := by decide +kernel
  have hentries : unreportedBound.constraints.entries =
      [(⟨⟨.singleVariable, .greaterThan⟩, 0⟩, ⟨.singleVariable ⟨0⟩, .greaterThan 1⟩),
        (⟨⟨.singleVariable, .lessThan⟩, 1⟩, ⟨.singleVariable ⟨1⟩, .lessThan 4⟩),
        (⟨⟨.vectorOfVariables, .nonnegativeCone⟩, 2⟩,
          ⟨.vectorOfVariables [⟨2⟩], .nonnegativeCone 1⟩),
        (⟨⟨.scalarAffine, .equalTo⟩, 3⟩,
          ⟨.scalarAffine ⟨[⟨1, ⟨0⟩⟩, ⟨2, ⟨2⟩⟩], 3⟩, .equalTo 5⟩)] := by
    decide +kernel
  have hcost : ((unreportedBound.backend.reducedCost Settings.default 0
      ⟨⟨.singleVariable, .greaterThan⟩, 0⟩ ⟨0⟩).outcome).toBool = true := by decide +kernel
  obtain ⟨hfound, hasked⟩ := exists_dualObjectiveValue_iff ha hs 0
  rw [hentries] at hfound hasked
  refine ⟨ha, hs, hfound.mpr ⟨by decide, ?_, ?_, by decide +kernel⟩, fun h => ?_⟩
  · intro p hp haffine
    fin_cases hp
    · cases haffine
    · cases haffine
    · cases haffine
    · exact ⟨_, rfl⟩
  · intro p hp v hv
    fin_cases hp
    · cases hv
      exact .inr ⟨by decide +kernel, exists_returns_of_toBool hcost⟩
    · exact .inl ⟨_, rfl⟩
    · cases hv
    · cases hv
  · obtain ⟨p, hp, hvariables, -, hp'⟩ := hasked _ h
    fin_cases hp
    · cases hp'
    · cases hp'
    · exact hvariables rfl
    · cases hp'

end DualRecovery.Arena
