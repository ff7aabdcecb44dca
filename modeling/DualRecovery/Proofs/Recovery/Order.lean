import DualRecovery.Proofs.Rational
import DualRecovery.Proofs.Store.Numbering
import DualRecovery.Proofs.Trace.Agrees

/-! The order in which a backend lists its families and their constraints does not matter to what
is recovered, for exact scalars. A failure may be another one, as another constraint may come first
that stops the recovery. -/

namespace DualRecovery.Backend

open Traced

section

variable {b : Backend ℚ} {settings : Settings ℚ} {r : ℕ} {families : List Family}
  {indices : Family → List ConstraintIndex} (hfamilies : families.Perm b.families)
  (hindices : ∀ family, (indices family).Perm (b.indices family))

/-! ### Recovered duals -/

include hindices

theorem familyAdjointEntry_agrees (excluded : ConstraintIndex) (v : VariableIndex)
    (family : Family) :
    (({ b with families, indices } : Backend ℚ).familyAdjointEntry settings r excluded v
        family).Agrees (b.familyAdjointEntry settings r excluded v family) := by
  unfold familyAdjointEntry
  split
  · exact .refl _
  · split
    · refine .bind (fun u => ?_) fun _ => .refl _
      rw [returns_forM, returns_forM]
      have hmem (other) : other ∈ (indices family).filter (· ≠ excluded) ↔
          other ∈ (b.indices family).filter (· ≠ excluded) :=
        ((hindices family).filter _).mem_iff
      exact forall_congr' fun other => imp_congr_left (hmem other)
    · exact .foldlM_perm (fun c x y => add_right_comm c x y) (hindices family) 0

include hfamilies

theorem reducedCost_agrees (excluded : ConstraintIndex)
    (v : VariableIndex) :
    (({ b with families, indices } : Backend ℚ).reducedCost settings r excluded v).Agrees
      (b.reducedCost settings r excluded v) := by
  refine .bind (.refl _) fun gradient => ?_
  refine .trans (.foldlM (fun dual family _ => ?_) gradient)
    (.foldlM_perm (fun c x y => sub_right_comm c x y) hfamilies gradient)
  exact .bind (familyAdjointEntry_agrees hindices excluded v family) fun _ => .refl _

theorem stationaryDual_agrees (ci : ConstraintIndex) :
    (({ b with families, indices } : Backend ℚ).stationaryDual settings r ci).Agrees
      (b.stationaryDual settings r ci) := by
  refine .bind (.refl _) fun f => ?_
  cases f with
  | singleVariable v => exact .bind (reducedCost_agrees hfamilies hindices ci v) fun _ => .refl _
  | vectorOfVariables vs =>
    exact .bind (.mapM fun v _ => reducedCost_agrees hfamilies hindices ci v) fun _ => .refl _
  | _ => exact .refl _

/-! ### The dual objective -/

theorem scalarDualOrRecovered_agrees (ci : ConstraintIndex) :
    (({ b with families, indices } : Backend ℚ).scalarDualOrRecovered settings r ci).Agrees
      (b.scalarDualOrRecovered settings r ci) := by
  refine .recover fun e => ?_
  split
  · exact .some (.bind (stationaryDual_agrees hfamilies hindices ci) fun _ => .refl _)
  · exact .none

theorem dualTerm_agrees (ci : ConstraintIndex)
    (set : ConstraintSet ℚ) (constant : Value ℚ) :
    (({ b with families, indices } : Backend ℚ).dualTerm settings r ci set constant).Agrees
      (b.dualTerm settings r ci set constant) := by
  cases constant with
  | scalar c =>
    exact .bind (scalarDualOrRecovered_agrees hfamilies hindices ci) fun _ => .refl _
  | vector cs => exact .refl _

theorem loggedDualTerm_agrees (ci : ConstraintIndex) :
    (({ b with families, indices } : Backend ℚ).loggedDualTerm settings r ci).Agrees
      (b.loggedDualTerm settings r ci) := by
  refine .bind (.refl _) fun f => .bind (.refl _) fun set => ?_
  exact .bind (dualTerm_agrees hfamilies hindices ci set f.constant) fun _ => .refl _

omit hfamilies hindices in
/-- A family adds its sum to the value. -/
theorem addFamilyDualObjective_add (value : ℚ) (family : Family) :
    (b.addFamilyDualObjective settings r value family).Agrees
      (b.addFamilyDualObjective settings r 0 family >>= fun sum => pure (value + sum)) := by
  unfold addFamilyDualObjective
  split
  · exact .refl _
  · split
    · rw [pure_bind, add_zero]
      exact .refl _
    · have h : ((b.indices family).foldlM
          (fun c ci => b.loggedDualTerm settings r ci >>= fun y => pure (c + y))
          (value + 0)).Agrees _ := .foldlM_add value 0
      rwa [add_zero] at h

theorem addFamilyDualObjective_agrees (value : ℚ)
    (family : Family) :
    (({ b with families, indices } : Backend ℚ).addFamilyDualObjective settings r value
        family).Agrees (b.addFamilyDualObjective settings r value family) := by
  unfold addFamilyDualObjective
  split
  · exact .refl _
  · split
    · exact .refl _
    · refine .trans (.foldlM (fun value ci _ => ?_) value)
        (.foldlM_perm (fun c x y => add_right_comm c x y) (hindices family) value)
      exact .bind (loggedDualTerm_agrees hfamilies hindices ci) fun _ => .refl _

theorem dualObjective_agrees :
    (({ b with families, indices } : Backend ℚ).dualObjective settings r).Agrees
      (b.dualObjective settings r) := by
  refine .bind ?_ fun _ => .refl _
  have hadd (families : List Family) :
      (families.foldlM (b.addFamilyDualObjective settings r) 0).Agrees (families.foldlM
        (fun c family => b.addFamilyDualObjective settings r 0 family >>= fun x => pure (c + x))
        0) :=
    .foldlM (fun value family _ => addFamilyDualObjective_add value family) 0
  have hstep : (families.foldlM
      (({ b with families, indices } : Backend ℚ).addFamilyDualObjective settings r) 0).Agrees
      (families.foldlM (b.addFamilyDualObjective settings r) 0) :=
    .foldlM (fun value family _ => addFamilyDualObjective_agrees hfamilies hindices value family) 0
  have hperm := Agrees.foldlM_perm (fun c x y => add_right_comm c x y)
    (f := b.addFamilyDualObjective settings r 0) hfamilies 0
  exact hstep.trans ((hadd families).trans (hperm.trans (hadd b.families).symm))

end

/-- Two backends that differ only in the order of their families, and of the constraints within
families, recover the same duals and the same dual objective. -/
theorem recoverDual_perm (b : Backend ℚ) (settings : Settings ℚ) (r : ℕ) {families : List Family}
    {indices : Family → List ConstraintIndex} (hfamilies : families.Perm b.families)
    (hindices : ∀ family, (indices family).Perm (b.indices family)) :
    (∀ ci y, (({ b with families, indices } : Backend ℚ).recoverDual settings r ci).Returns y ↔
        (b.recoverDual settings r ci).Returns y) ∧
      ∀ value, (({ b with families, indices } : Backend ℚ).dualObjectiveValue settings
        r).Returns value ↔ (b.dualObjectiveValue settings r).Returns value :=
  ⟨fun ci => (stationaryDual_agrees hfamilies hindices ci).concluded _ _ r,
    (dualObjective_agrees hfamilies hindices).concluded _ _ r⟩

/-- Two variables with a bound each, and in three affine constraints of two families. -/
def listed : Backend ℚ := (Store.runAll .empty
  [.addVariables 2, .addConstraint (.singleVariable ⟨0⟩) (.greaterThan 1),
    .addConstraint (.singleVariable ⟨1⟩) (.greaterThan 2),
    .addConstraint (.scalarAffine ⟨[⟨1, ⟨0⟩⟩, ⟨1, ⟨1⟩⟩], 1⟩) (.lessThan 4),
    .addConstraint (.scalarAffine ⟨[⟨3, ⟨0⟩⟩, ⟨-1, ⟨1⟩⟩], 0⟩) (.lessThan 5),
    .addConstraint (.vectorAffine ⟨[⟨0, ⟨1, ⟨0⟩⟩⟩], [-1]⟩) (.nonnegativeCone 1),
    .setObjective .minimize (.scalarAffine ⟨[⟨1, ⟨0⟩⟩], 6⟩),
    .reportDual 0 ⟨⟨.scalarAffine, .lessThan⟩, 2⟩ (.scalar (-1)),
    .reportDual 0 ⟨⟨.scalarAffine, .lessThan⟩, 3⟩ (.scalar (-2)),
    .reportDual 0 ⟨⟨.vectorAffine, .nonnegativeCone⟩, 4⟩ (.vector [5])]).backend

/-- `listed` with everything listed from the end. -/
def listedReversed : Backend ℚ :=
  { listed with
    families := listed.families.reverse
    indices := fun family => (listed.indices family).reverse }

theorem recoverDual_listedReversed :
    (listedReversed.recoverDual Settings.default 0
        ⟨⟨.singleVariable, .greaterThan⟩, 0⟩).Returns (.scalar 3) ∧
      (listedReversed.dualObjectiveValue Settings.default 0).Returns (-1) := by
  have hfamilies : listed.families.reverse.Perm listed.families := List.reverse_perm _
  have hindices (family) : (listed.indices family).reverse.Perm (listed.indices family) :=
    List.reverse_perm _
  obtain ⟨hduals, hobjective⟩ := recoverDual_perm listed Settings.default 0 hfamilies hindices
  refine ⟨(hduals ⟨⟨.singleVariable, .greaterThan⟩, 0⟩ (.scalar 3)).mpr ?_,
    (hobjective (-1)).mpr ?_⟩
  · show (listed.recoverDual _ _ _).outcome = _
    decide +kernel
  · show (listed.dualObjectiveValue _ _).outcome = _
    decide +kernel

end DualRecovery.Backend
