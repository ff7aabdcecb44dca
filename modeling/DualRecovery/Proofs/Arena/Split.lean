import DualRecovery.Proofs.Arena.Refinement
import DualRecovery.Proofs.Recovery.Rows
import DualRecovery.Proofs.Store.Split

/-! A vector affine constraint can be replaced by scalar affine constraints on its rows: commands
bring about an arena with these instead, with the entries of the dual, and without a tolerance the
two arenas have the same reduced costs and the same dual objective, and the value of the one
constraint is the list of the values of the others. -/

namespace DualRecovery.Arena

open Traced

variable {a : Arena ℚ} {r : ℕ} {settings : Settings ℚ}

theorem returns_constraintValue {α : Type} [Scalar α] {m : Store α} {settings : Settings α}
    {p : ConstraintIndex × Constraint α} (hp : p ∈ m.numbered) {value : Value α} :
    (m.backend.constraintValue settings r p.1).Returns value ↔
      (m.backend.valueAtPoint settings r p.2.function).Returns value := by
  unfold Backend.constraintValue
  rw [returns_concluded, Store.backend_function hp, ofQuery_ok, pure_bind]

/-- For a constraint in a cone of the entries there is an arena in which the constraints on its rows
stand in its place, at every result with the entries of the dual that it was reported. -/
theorem Reachable.exists_split (ha : a.Reachable) {index : ConstraintIndex}
    {function : VectorAffine ℚ} {cone : RowCone}
    (hmem : (index, ⟨.vectorAffine function, cone.cone function.constants.length⟩) ∈
      a.constraints.entries) :
    ∃ a' : Arena ℚ, a'.Reachable ∧
      ∀ r ys, a.backend.dual index r = .ok (.vector ys) → r < a'.reports.length ∧
        (Split.inPlace index function cone ys).Relates r a.backend a.constraints.entries
          a'.backend a'.constraints.entries := by
  obtain ⟨m, hm, h⟩ := ha.exists_store
  rw [h.constraints] at hmem ⊢
  have hvector (ys) : (Split.inPlace index function cone ys).vector ∈ m.numbered := hmem
  obtain ⟨m', ⟨commands, hm'⟩, hnumbered, hcount, hbackend⟩ :=
    (Split.valid_split (hvector []) hm.valid).exists_reachable
  have h' : (runAll empty commands).Represents m' := hm' ▸ Represents.empty.runAll commands
  refine ⟨runAll empty commands, ⟨commands, rfl⟩, fun r ys hdual => ?_⟩
  rw [h.backend_eq] at hdual
  constructor
  · rw [h'.count, hcount, Split.length_results_split]
    exact Store.lt_length_of_dual hdual
  · rw [h.backend_eq, h'.backend_eq, h'.constraints, hbackend, hnumbered]
    exact Split.relates_inPlace (hvector ys) hm.valid hdual

/-- A constraint in a cone of the entries whose dual is reported can be split into its rows, each
with its entry of the dual. However it is split, the reduced cost of every variable and the dual
objective are found just as before, and are the same, and the value of the constraint is found just
if those of all rows are, and is the list of these. -/
theorem recover_split (ha : a.Reachable) (hzero : settings.zeroTolerance = 0) :
    (∀ (index : ConstraintIndex) (function : VectorAffine ℚ) (cone : RowCone) (ys : List ℚ),
      (index, ⟨.vectorAffine function, cone.cone function.constants.length⟩) ∈
        a.constraints.entries →
      a.backend.dual index r = .ok (.vector ys) →
      ∃ a' : Arena ℚ, a'.Reachable ∧ r < a'.reports.length ∧
        (Split.inPlace index function cone ys).Relates r a.backend a.constraints.entries
          a'.backend a'.constraints.entries) ∧
    ∀ (s : Split) (a' : Arena ℚ), a'.Reachable → r < a'.reports.length →
      s.Relates r a.backend a.constraints.entries a'.backend a'.constraints.entries →
      (∀ p ∈ a.constraints.entries, p.2.function.kind.isVariableWise = true → ∀ v cost,
        (a'.backend.reducedCost settings r (s.kept p.1) v).Returns cost ↔
          (a.backend.reducedCost settings r p.1 v).Returns cost) ∧
      (∀ value, (a'.backend.dualObjectiveValue settings r).Returns value ↔
        (a.backend.dualObjectiveValue settings r).Returns value) ∧
      ∀ value, (a.backend.constraintValue settings r s.index).Returns value ↔
        ∃ xs, value = .vector xs ∧ xs.length = s.dimension ∧ ∀ k (hk : k < xs.length),
          (a'.backend.constraintValue settings r (s.row k)).Returns (.scalar xs[k]) := by
  constructor
  · intro index function cone ys hmem hdual
    obtain ⟨a', ha', hsplit⟩ := ha.exists_split hmem
    exact ⟨a', ha', hsplit r ys hdual⟩
  intro s a' ha' hr' hs
  obtain ⟨m, hm, h⟩ := ha.exists_store
  obtain ⟨m', hm', h'⟩ := ha'.exists_store
  rw [h.backend_eq, h'.backend_eq, h.constraints, h'.constraints] at *
  rw [h'.count] at hr'
  refine ⟨fun p hp hwise v => hs.returns_reducedCost hzero hm.valid hm'.valid hp hwise v,
    hs.returns_dualObjectiveValue hzero hm.valid hm'.valid hr', fun value => ?_⟩
  have hrow : ∀ t ∈ s.function.terms, t.row < s.function.constants.length := fun t ht =>
    (hm.valid.fits hs.mem).function.rows _ (List.mem_map_of_mem ht)
  refine (returns_constraintValue hs.mem).trans ((Backend.returns_valueAtPoint_rows hrow).trans ?_)
  refine exists_congr fun xs => and_congr_right fun _ => and_congr_right fun hlength => ?_
  refine forall₂_congr fun k hk => ?_
  rw [← Backend.valueAtPoint_congr hs.primal hs.primalStatus]
  exact (returns_constraintValue (hs.mem_scalar (hk.trans_eq hlength))).symm

/-- The functions `3 * x0 - 1`, in two terms, and `4`, with two terms that cancel. -/
def rows : VectorAffine ℚ :=
  ⟨[⟨1, 1, ⟨1⟩⟩, ⟨0, 2, ⟨0⟩⟩, ⟨1, -1, ⟨1⟩⟩, ⟨0, 1, ⟨0⟩⟩], [-1, 4]⟩

/-- A variable with a bound, after two rows in a cone whose dual is reported. -/
def rowsInCone : Arena ℚ := runAll empty
  [.addVariables 2, .addConstraint (.vectorAffine rows) (.nonnegativeCone 2),
    .addConstraint (.singleVariable ⟨0⟩) (.greaterThan 1),
    .setObjective .minimize (.scalarAffine ⟨[⟨5, ⟨0⟩⟩], 0⟩), .reportPrimals 0 [1, 3],
    .reportDual 0 ⟨⟨.vectorAffine, .nonnegativeCone⟩, 0⟩ (.vector [1, 2])]

/-- Each of the rows in a constraint of its own. -/
def rowsApart : Arena ℚ := runAll empty
  [.addVariables 2, .addConstraint (.scalarAffine (rows.row 0)) (.greaterThan 0),
    .addConstraint (.scalarAffine (rows.row 1)) (.greaterThan 0),
    .addConstraint (.singleVariable ⟨0⟩) (.greaterThan 1),
    .setObjective .minimize (.scalarAffine ⟨[⟨5, ⟨0⟩⟩], 0⟩), .reportPrimals 0 [1, 3],
    .reportDual 0 ⟨⟨.scalarAffine, .greaterThan⟩, 0⟩ (.scalar 1),
    .reportDual 0 ⟨⟨.scalarAffine, .greaterThan⟩, 1⟩ (.scalar 2)]

def rowsSplit : Split :=
  .inPlace ⟨⟨.vectorAffine, .nonnegativeCone⟩, 0⟩ rows .nonnegative [1, 2]

theorem relates_rowsSplit : rowsSplit.Relates 0 rowsInCone.backend rowsInCone.constraints.entries
    rowsApart.backend rowsApart.constraints.entries where
  objective := by decide +kernel
  sense := by decide +kernel
  primal v := by
    match v with
    | ⟨0⟩ => decide +kernel
    | ⟨1⟩ => decide +kernel
    | ⟨n + 2⟩ => rfl
  primalStatus := by decide +kernel
  dualStatus := by decide +kernel
  mem := by decide +kernel
  constraints := by decide +kernel
  dual := by decide +kernel
  keptDual := by
    have hmissing : ∀ p ∈ rowsInCone.constraints.entries, p.1 ≠ rowsSplit.index →
        rowsInCone.backend.dual p.1 0 = .error (.noDual p.1) ∧
          rowsApart.backend.dual (rowsSplit.kept p.1) 0 =
            .error (.noDual (rowsSplit.kept p.1)) := by
      decide +kernel
    intro p hp hne y
    rw [(hmissing p hp hne).1, (hmissing p hp hne).2]
    exact iff_of_false nofun nofun
  rowDual := by decide +kernel

theorem recover_split_rows :
    rowsInCone.Reachable ∧ rowsApart.Reachable ∧ 0 < rowsApart.reports.length ∧
      (Settings.default : Settings ℚ).zeroTolerance = 0 ∧
      (∃ a' : Arena ℚ, a'.Reachable ∧ 0 < a'.reports.length ∧
        rowsSplit.Relates 0 rowsInCone.backend rowsInCone.constraints.entries
          a'.backend a'.constraints.entries) ∧
      (rowsApart.backend.reducedCost Settings.default 0
        ⟨⟨.singleVariable, .greaterThan⟩, 2⟩ ⟨0⟩).Returns 2 ∧
      (rowsApart.backend.dualObjectiveValue Settings.default 0).Returns (-5) ∧
      (rowsInCone.backend.constraintValue Settings.default 0 rowsSplit.index).Returns
        (.vector [2, 4]) := by
  have ha : rowsInCone.Reachable := ⟨_, rfl⟩
  have ha' : rowsApart.Reachable := ⟨_, rfl⟩
  have hr' : 0 < rowsApart.reports.length := by decide +kernel
  have hzero : (Settings.default : Settings ℚ).zeroTolerance = 0 := rfl
  obtain ⟨hexists, hsplit⟩ := recover_split (r := 0) ha hzero
  obtain ⟨hcost, hdual, hvalue⟩ := hsplit rowsSplit rowsApart ha' hr' relates_rowsSplit
  refine ⟨ha, ha', hr', hzero, hexists _ _ _ _ ?_ ?_, ?_, (hdual _).mpr ?_,
    (hvalue _).mpr ⟨_, rfl, rfl, ?_⟩⟩
  · decide +kernel
  · decide +kernel
  · refine (hcost (⟨⟨.singleVariable, .greaterThan⟩, 1⟩, ⟨.singleVariable ⟨0⟩, .greaterThan 1⟩)
      ?_ rfl ⟨0⟩ 2).mpr ?_
    · decide +kernel
    · decide +kernel
  · decide +kernel
  · decide +kernel

end DualRecovery.Arena
