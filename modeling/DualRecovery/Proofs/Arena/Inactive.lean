import DualRecovery.Proofs.Arena.Refinement
import DualRecovery.Proofs.Binary.Arithmetic
import DualRecovery.Proofs.Store.Omission

/-! Scalar constraints whose dual is zero can be left out: if the way from the constant of such a
constraint to its bound is finite, or it is an interval, the dual objective is the same without it,
to the last bit. If the way is infinite, the dual objective is no number. -/

namespace DualRecovery.Arena

open Scalar Traced

variable {α : Type} [Scalar α] {a : Arena α} {settings : Settings α} {r : ℕ}

/-- For any constraint there is an arena without it. -/
theorem Reachable.exists_omission (ha : a.Reachable) (index : ConstraintIndex) :
    ∃ (o : Omission) (a' : Arena α), o.index = index ∧ a'.Reachable ∧
      ∀ r, o.Relates r a.backend a.constraints.entries a'.backend a'.constraints.entries := by
  obtain ⟨m, hm, h⟩ := ha.exists_store
  obtain ⟨m', ⟨commands, hm'⟩, hnumbered, -, hbackend⟩ :=
    (Store.valid_without hm.valid index).exists_reachable
  have h' : (runAll empty commands).Represents m' := hm' ▸ Represents.empty.runAll commands
  refine ⟨m.omission index, runAll empty commands, rfl, ⟨commands, rfl⟩, fun r => ?_⟩
  rw [h.backend_eq, h'.backend_eq, h.constraints, h'.constraints, hbackend, hnumbered]
  exact Store.relates_without r

/-- A constraint whose dual is zero can be left out. If the way to its bound is finite, the dual
objective is found just if it is without the constraint, and is the same; if not, the one that is
found is no number. -/
theorem dualObjectiveValue_inactive [NeutralZero α] [AbsorbingScalar α] (ha : a.Reachable)
    (hstored : ∀ q ∈ a.constraints.entries, q.2.function.kind = .singleVariable →
      ∃ y, a.backend.dual q.1 r = .ok y)
    {p : ConstraintIndex × Constraint α} (hp : p ∈ a.constraints.entries)
    (hscalar : p.2.set.isScalar = true) {y : α} (hy : a.backend.dual p.1 r = .ok (.scalar y))
    (hzero : (y == 0) = true) :
    (∃ (o : Omission) (a' : Arena α), o.index = p.1 ∧ a'.Reachable ∧
        o.Relates r a.backend a.constraints.entries a'.backend a'.constraints.entries) ∧
      (p.2.HasFiniteWay → ∀ (o : Omission) (a' : Arena α), o.index = p.1 → a'.Reachable →
        o.Relates r a.backend a.constraints.entries a'.backend a'.constraints.entries →
        ∀ value, (a.backend.dualObjectiveValue settings r).Returns value ↔
          p.2.function.kind.isQuadratic = false ∧
            (a'.backend.dualObjectiveValue settings r).Returns value) ∧
      (¬p.2.HasFiniteWay → ∀ value, (a.backend.dualObjectiveValue settings r).Returns value →
        isNaN value = true) := by
  refine ⟨(ha.exists_omission p.1).imp fun o => Exists.imp fun a' h => ⟨h.1, h.2.1, h.2.2 r⟩, ?_⟩
  obtain ⟨m, hm, hrep⟩ := ha.exists_store
  rw [hrep.backend_eq, hrep.constraints] at *
  constructor
  · intro hway o a' hindex ha' h value
    obtain ⟨m', hm', hrep'⟩ := ha'.exists_store
    rw [hrep'.backend_eq, hrep'.constraints] at *
    exact h.returns_dualObjectiveValue_iff hstored hm.valid hp hindex hscalar hy hzero hway
  · intro hway value hvalue
    have hkind := FunctionKind.ne_vectorOfVariables ((hm.valid.fits hp).isScalar.trans hscalar)
    exact Store.isNaN_of_term hp hvalue hkind fun t ht =>
      Store.isNaN_of_not_hasFiniteWay hp hy hzero hway ht

/-- A variable that is bounded below, twice, of which only the second is active. The first is an
interval without an upper end, and its dual is the negative zero. -/
def boundedTwice : Arena Float := runAll empty
  [.addVariable, .addConstraint (.singleVariable ⟨0⟩) (.interval 1 (1 / 0)),
    .addConstraint (.scalarAffine ⟨[⟨1, ⟨0⟩⟩], 0⟩) (.greaterThan 4),
    .setObjective .minimize (.scalarAffine ⟨[⟨2, ⟨0⟩⟩], 3⟩),
    .reportDual 0 ⟨⟨.singleVariable, .interval⟩, 0⟩ (.scalar (-0)),
    .reportDual 0 ⟨⟨.scalarAffine, .greaterThan⟩, 1⟩ (.scalar 2)]

def boundedOnce : Arena Float := runAll empty
  [.addVariable, .addConstraint (.scalarAffine ⟨[⟨1, ⟨0⟩⟩], 0⟩) (.greaterThan 4),
    .setObjective .minimize (.scalarAffine ⟨[⟨2, ⟨0⟩⟩], 3⟩),
    .reportDual 0 ⟨⟨.scalarAffine, .greaterThan⟩, 0⟩ (.scalar 2)]

def firstBound : Omission :=
  ⟨⟨⟨.singleVariable, .interval⟩, 0⟩, fun ci => ⟨ci.family, ci.number - 1⟩⟩

theorem relates_firstBound : firstBound.Relates 0 boundedTwice.backend
    boundedTwice.constraints.entries boundedOnce.backend boundedOnce.constraints.entries where
  objective := by decide +kernel
  sense := by decide +kernel
  dualStatus := by decide +kernel
  families := by decide +kernel
  constraints := firstBound.filter_family_eq (fun _ => rfl) (by decide +kernel)
  dual := by
    have hdual : ∀ p ∈ boundedTwice.constraints.entries, p.1 ≠ firstBound.index →
        boundedOnce.backend.dual (firstBound.kept p.1) 0 = boundedTwice.backend.dual p.1 0 := by
      decide +kernel
    intro p hp hne y
    rw [hdual p hp hne]

theorem dualObjectiveValue_boundedTwice :
    boundedTwice.Reachable ∧ boundedOnce.Reachable ∧
      (boundedTwice.backend.dualObjectiveValue Settings.default 0).Returns 11 := by
  have ha : boundedTwice.Reachable := ⟨_, rfl⟩
  have ha' : boundedOnce.Reachable := ⟨_, rfl⟩
  have hp : (⟨⟨.singleVariable, .interval⟩, 0⟩, ⟨.singleVariable ⟨0⟩, .interval 1 (1 / 0)⟩) ∈
      boundedTwice.constraints.entries := by
    decide +kernel
  have hstored : ∀ q ∈ boundedTwice.constraints.entries, q.2.function.kind = .singleVariable →
      boundedTwice.backend.dual q.1 0 = .ok (.scalar (-0)) := by
    decide +kernel
  obtain ⟨-, hfinite, -⟩ := dualObjectiveValue_inactive ha
    (fun q hq hkind => ⟨_, hstored q hq hkind⟩) hp rfl (hstored _ hp rfl) (by decide +kernel)
  refine ⟨ha, ha', (hfinite ?_ firstBound boundedOnce rfl ha' relates_firstBound 11).mpr
    ⟨rfl, ?_⟩⟩
  · intro bound constant hbound
    cases hbound
  · decide +kernel

/-- A free variable, written as one with an infinite lower bound, of dual zero. -/
def freeVariable : Arena Float := runAll empty
  [.addVariable, .addConstraint (.singleVariable ⟨0⟩) (.greaterThan (-1 / 0)),
    .reportDual 0 ⟨⟨.singleVariable, .greaterThan⟩, 0⟩ (.scalar 0)]

/-- The same variable without the bound, and the result that there is. -/
def boundlessVariable : Arena Float := runAll empty
  [.addVariable, .reportDualStatus 0 .noSolution]

def lowerBound : Omission := ⟨⟨⟨.singleVariable, .greaterThan⟩, 0⟩, id⟩

theorem relates_lowerBound : lowerBound.Relates 0 freeVariable.backend
    freeVariable.constraints.entries boundlessVariable.backend
    boundlessVariable.constraints.entries where
  objective := by decide +kernel
  sense := by decide +kernel
  dualStatus := by decide +kernel
  families := by decide +kernel
  constraints := lowerBound.filter_family_eq (fun _ => rfl) (by decide +kernel)
  dual := by
    have hnone : ∀ p ∈ freeVariable.constraints.entries, p.1 = lowerBound.index := by
      decide +kernel
    exact fun p hp hne => absurd (hnone p hp) hne

/-- Without the bound the dual objective is zero, and with it no number. -/
theorem not_dualObjectiveValue_inactive :
    ¬∀ (a a' : Arena Float) (o : Omission) (r : ℕ) (p : ConstraintIndex × Constraint Float)
      (y value : Float), a.Reachable → a'.Reachable →
      o.Relates r a.backend a.constraints.entries a'.backend a'.constraints.entries →
      (∀ q ∈ a.constraints.entries, ∃ y, a.backend.dual q.1 r = .ok y) →
      p ∈ a.constraints.entries → p.1 = o.index → p.2.set.isScalar = true →
      a.backend.dual p.1 r = .ok (.scalar y) → (y == 0) = true →
      (a'.backend.dualObjectiveValue Settings.default r).Returns value →
      (a.backend.dualObjectiveValue Settings.default r).Returns value := by
  intro h
  have hstored : ∀ q ∈ freeVariable.constraints.entries,
      freeVariable.backend.dual q.1 0 = .ok (.scalar 0) := by
    decide +kernel
  have hreturns := h freeVariable boundlessVariable lowerBound 0
    (⟨⟨.singleVariable, .greaterThan⟩, 0⟩, ⟨.singleVariable ⟨0⟩, .greaterThan (-1 / 0)⟩) 0 0
    ⟨_, rfl⟩ ⟨_, rfl⟩ relates_lowerBound (fun q hq => ⟨_, hstored q hq⟩) (by decide +kernel) rfl rfl
    (by decide +kernel) (by decide +kernel) (by decide +kernel)
  revert hreturns
  decide +kernel

end DualRecovery.Arena
