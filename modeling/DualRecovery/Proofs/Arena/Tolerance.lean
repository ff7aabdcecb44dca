import DualRecovery.Proofs.Arena.Refinement
import DualRecovery.Proofs.Recovery.Tolerance

/-! What a user can rely on who raises the tolerance for coefficients: a reduced cost that was found
from an arena is still found, from some of the same duals, and the change is bounded by the duals
that are left out. -/

namespace DualRecovery.Arena

open Traced

/-- Under a larger tolerance the reduced cost is found again, no other duals are asked for, and the
two values differ by at most the tolerance times the size of the duals that are not asked for any
more. -/
theorem reducedCost_of_le_tolerance {a : Arena ℚ} (ha : a.Reachable) {s s' : Settings ℚ}
    (hs : 0 ≤ s.zeroTolerance) (hle : s.zeroTolerance ≤ s'.zeroTolerance) {r : ℕ}
    {excluded : ConstraintIndex} {v : VariableIndex} {x : ℚ}
    (h : (a.backend.reducedCost s r excluded v).Returns x) :
    ∃ x', (a.backend.reducedCost s' r excluded v).Returns x' ∧
      (a.backend.reducedCost s' r excluded v).queries.Sublist
        (a.backend.reducedCost s r excluded v).queries ∧
      |x - x'| ≤ s'.zeroTolerance * droppedMass a.constraints.entries a.dual r
        (a.backend.reducedCost s r excluded v).queries
        (a.backend.reducedCost s' r excluded v).queries := by
  obtain ⟨m, hm, hrep⟩ := ha.exists_store
  have hdual : a.dual = m.dual := funext fun ci => funext (hrep.dual ci)
  rw [hrep.backend_eq] at h ⊢
  rw [hrep.constraints, hdual]
  exact Store.reducedCost_mono hm.valid hs hle h

/-- A variable with a bound and in three affine constraints: with small coefficients in a number
and off the diagonal of a matrix, and with a large one. -/
def smallCoefficients : Arena ℚ := runAll empty
  [.addVariables 1, .addConstraint (.singleVariable ⟨0⟩) (.greaterThan 0),
    .addConstraint (.scalarAffine ⟨[⟨1 / 4, ⟨0⟩⟩], 0⟩) (.lessThan 1),
    .addConstraint (.vectorAffine ⟨[⟨1, ⟨1 / 2, ⟨0⟩⟩⟩], [0, 0, 0]⟩) (.psdTriangleCone 2),
    .addConstraint (.scalarAffine ⟨[⟨3, ⟨0⟩⟩], 0⟩) (.greaterThan 0),
    .setObjective .minimize (.singleVariable ⟨0⟩),
    .reportDual 0 ⟨⟨.scalarAffine, .lessThan⟩, 1⟩ (.scalar (-6)),
    .reportDual 0 ⟨⟨.vectorAffine, .psdTriangleCone⟩, 2⟩ (.vector [1, -2, 1]),
    .reportDual 0 ⟨⟨.scalarAffine, .greaterThan⟩, 3⟩ (.scalar 5)]

/-- The settings under which `smallCoefficients` leaves two duals out. -/
def coarse : Settings ℚ := ⟨Settings.evaluatePolicy, 1 / 2⟩

/-- The duals that are left out have the sizes `6` and `1 + 2 * 2 + 1`. -/
theorem reducedCost_smallCoefficients :
    smallCoefficients.Reachable ∧ 0 ≤ (Settings.default : Settings ℚ).zeroTolerance ∧
      (Settings.default : Settings ℚ).zeroTolerance ≤ coarse.zeroTolerance ∧
      (smallCoefficients.backend.reducedCost Settings.default 0
        ⟨⟨.singleVariable, .greaterThan⟩, 0⟩ ⟨0⟩).Returns (-21 / 2) ∧
      ∃ x', (smallCoefficients.backend.reducedCost coarse 0
          ⟨⟨.singleVariable, .greaterThan⟩, 0⟩ ⟨0⟩).Returns x' ∧
        |-21 / 2 - x'| ≤ 1 / 2 * (6 + 6) := by
  have ha : smallCoefficients.Reachable := ⟨_, rfl⟩
  have hs : 0 ≤ (Settings.default : Settings ℚ).zeroTolerance := by decide +kernel
  have hle : (Settings.default : Settings ℚ).zeroTolerance ≤ coarse.zeroTolerance := by
    decide +kernel
  have hx : (smallCoefficients.backend.reducedCost Settings.default 0
      ⟨⟨.singleVariable, .greaterThan⟩, 0⟩ ⟨0⟩).Returns (-21 / 2) := by decide +kernel
  have hmass : droppedMass smallCoefficients.constraints.entries smallCoefficients.dual 0
      (smallCoefficients.backend.reducedCost Settings.default 0
        ⟨⟨.singleVariable, .greaterThan⟩, 0⟩ ⟨0⟩).queries
      (smallCoefficients.backend.reducedCost coarse 0
        ⟨⟨.singleVariable, .greaterThan⟩, 0⟩ ⟨0⟩).queries = 6 + 6 := by decide +kernel
  obtain ⟨x', hx', -, hbound⟩ := reducedCost_of_le_tolerance ha hs hle hx
  rw [hmass] at hbound
  exact ⟨ha, hs, hle, hx, x', hx', hbound⟩

end DualRecovery.Arena
