import DualRecovery.Proofs.Arena.Refinement
import DualRecovery.Proofs.Binary.Arithmetic
import DualRecovery.Proofs.Recovery.NotANumber

/-! Duals that are no numbers. A dual objective that was found from one is no number, unless it was
the dual of an interval; there it counts as a zero. -/

namespace DualRecovery

open Scalar Traced

namespace Arena

variable {α : Type} [Scalar α] [OrderedScalar α] [AbsorbingScalar α] {a : Arena α}
  {settings : Settings α} {r : ℕ}

/-- Once the dual objective is found, no dual that is no number was passed over but those of
intervals, which are taken for inactive. -/
theorem isNaN_dualObjectiveValue (ha : a.Reachable) {value : α}
    (h : (a.backend.dualObjectiveValue settings r).Returns value)
    {p : ConstraintIndex × Constraint α} (hp : p ∈ a.constraints.entries) :
    (∀ ys, p.2.function.kind = .vectorAffine → a.backend.dual p.1 r = .ok (.vector ys) →
        (∃ y ∈ ys, isNaN y = true) → isNaN value = true) ∧
      ∀ y, p.2.set.isScalar = true → (a.backend.scalarDualOrRecovered settings r p.1).Returns y →
        isNaN y = true → (p.2.set.tag ≠ .interval → isNaN value = true) ∧
          (p.2.set.tag = .interval → (a.backend.loggedDualTerm settings r p.1).Returns 0) := by
  obtain ⟨m, hm, hrep⟩ := ha.exists_store
  rw [hrep.constraints] at hp
  rw [hrep.backend_eq] at h ⊢
  have hfits : p.2.Fits m.variableCount := hm.valid.fits hp
  constructor
  · intro ys hkind hys hnan
    exact Store.isNaN_of_vectorDual hp h hkind hys hnan
  · intro y hscalar hy hnan
    exact ⟨Store.isNaN_of_scalarDual hp hfits hscalar hy hnan h,
      Store.returns_zero_of_interval hp hfits hscalar hy hnan⟩

/-- A bound, an interval and a vector constraint, all with duals that are no numbers. -/
def unknownDuals : Arena Float := runAll empty
  [.addVariables 2, .addConstraint (.singleVariable ⟨0⟩) (.greaterThan 1),
    .addConstraint (.singleVariable ⟨1⟩) (.interval 1 2),
    .addConstraint (.vectorAffine ⟨[⟨0, ⟨1, ⟨0⟩⟩⟩, ⟨1, ⟨1, ⟨1⟩⟩⟩], [0, 3]⟩) (.nonnegativeCone 2),
    .reportDual 0 ⟨⟨.singleVariable, .greaterThan⟩, 0⟩ (.scalar (0 / 0)),
    .reportDual 0 ⟨⟨.singleVariable, .interval⟩, 1⟩ (.scalar (0 / 0)),
    .reportDual 0 ⟨⟨.vectorAffine, .nonnegativeCone⟩, 2⟩ (.vector [1, 0 / 0])]

theorem isNaN_dualObjectiveValue_unknownDuals :
    unknownDuals.Reachable ∧
      (unknownDuals.backend.dualObjectiveValue Settings.default 0).Returns (0 / 0) ∧
      isNaN (0 / 0 : Float) = true ∧
      (unknownDuals.backend.loggedDualTerm Settings.default 0
        ⟨⟨.singleVariable, .interval⟩, 1⟩).Returns 0 := by
  have ha : unknownDuals.Reachable := ⟨_, rfl⟩
  have hvalue : (unknownDuals.backend.dualObjectiveValue Settings.default 0).Returns (0 / 0) := by
    decide +kernel
  have hnan : isNaN (0 / 0 : Float) = true := by decide +kernel
  have hinterval : (⟨⟨.singleVariable, .interval⟩, 1⟩,
      ⟨.singleVariable ⟨1⟩, .interval 1 2⟩) ∈ unknownDuals.constraints.entries := by
    decide +kernel
  have hvector : (⟨⟨.vectorAffine, .nonnegativeCone⟩, 2⟩,
      ⟨.vectorAffine ⟨[⟨0, ⟨1, ⟨0⟩⟩⟩, ⟨1, ⟨1, ⟨1⟩⟩⟩], [0, 3]⟩, .nonnegativeCone 2⟩) ∈
        unknownDuals.constraints.entries := by
    decide +kernel
  refine ⟨ha, hvalue, ?_, ?_⟩
  · exact (isNaN_dualObjectiveValue ha hvalue hvector).1 [1, 0 / 0] rfl (by decide +kernel)
      ⟨0 / 0, by simp, hnan⟩
  · exact ((isNaN_dualObjectiveValue ha hvalue hinterval).2 (0 / 0) rfl (by decide +kernel)
      hnan).2 rfl

/-- One variable in an interval, with a dual that is no number. -/
def unknownIntervalDual : Arena Float := runAll empty
  [.addVariable, .addConstraint (.singleVariable ⟨0⟩) (.interval 1 2),
    .reportDual 0 ⟨⟨.singleVariable, .interval⟩, 0⟩ (.scalar (0 / 0))]

/-- The interval is taken for inactive, and the dual objective is zero. -/
theorem not_isNaN_dualObjectiveValue :
    ¬∀ (a : Arena Float) (r : ℕ) (value y : Float) (p : ConstraintIndex × Constraint Float),
      a.Reachable → (a.backend.dualObjectiveValue Settings.default r).Returns value →
      p ∈ a.constraints.entries → p.2.set.isScalar = true →
      (a.backend.scalarDualOrRecovered Settings.default r p.1).Returns y → isNaN y = true →
      isNaN value = true := by
  intro h
  have hnan := h unknownIntervalDual 0 0 (0 / 0)
    (⟨⟨.singleVariable, .interval⟩, 0⟩, ⟨.singleVariable ⟨0⟩, .interval 1 2⟩) ⟨_, rfl⟩
    (by decide +kernel) (by decide +kernel) rfl (by decide +kernel) (by decide +kernel)
  revert hnan
  decide +kernel

end Arena

end DualRecovery
