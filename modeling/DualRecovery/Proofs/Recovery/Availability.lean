import DualRecovery.Proofs.Recovery.DualObjective
import DualRecovery.Proofs.Recovery.Queries
import DualRecovery.Proofs.Trace.Asks

/-! Which duals have to be reported for the dual objective to be found, and which are asked for on
the way, be it found or not: those of affine constraints and of constraints on one variable, and
never those of lists of variables. -/

namespace DualRecovery

open Traced

/-! ### What is asked for -/

namespace Backend

variable {α : Type} {b : Backend α} {r : ℕ} {P : Query → Prop} {ci : ConstraintIndex}

variable (b r) in
/-- A query for the dual of a constraint that is listed, in a family of such a kind. -/
def AsksDualOf (kinds : FunctionKind → Prop) (q : Query) : Prop :=
  ∃ family ∈ b.families, kinds family.kind ∧ ∃ ci ∈ b.indices family, q = .constraintDual ci r

theorem AsksDualOf.mono {kinds kinds' : FunctionKind → Prop} {q : Query}
    (h : b.AsksDualOf r kinds q) (hkinds : ∀ kind, kinds kind → kinds' kind) :
    b.AsksDualOf r kinds' q := by
  obtain ⟨family, hfamily, hkind, hci⟩ := h
  exact ⟨family, hfamily, hkinds _ hkind, hci⟩

theorem reportedDual_asks (h : P (.constraintDual ci r)) : (b.reportedDual r ci).Asks P :=
  (Asks.note_query h).bind fun _ => Asks.ofQuery _

theorem reportedScalarDual_asks (h : P (.constraintDual ci r)) :
    (b.reportedScalarDual r ci).Asks P := by
  refine (reportedDual_asks h).bind fun y => ?_
  cases y with
  | scalar y => exact Asks.pure y
  | vector ys => exact Asks.fail _

theorem reportedVectorDual_asks (h : P (.constraintDual ci r)) (dimension : ℕ) :
    (b.reportedVectorDual r ci dimension).Asks P := by
  refine (reportedDual_asks h).bind fun y => ?_
  unfold asVectorDual
  split
  · split
    · exact Asks.pure _
    · exact Asks.fail _
  · exact Asks.fail _

variable [Scalar α] [OrderedScalar α] {settings : Settings α}

/-- Reduced costs ask for duals of affine constraints only. -/
theorem reducedCost_asks (ht : 0 ≤ settings.zeroTolerance) (excluded : ConstraintIndex)
    (v : VariableIndex) :
    (b.reducedCost settings r excluded v).Asks (b.AsksDualOf r (·.isAffine = true)) := by
  intro q hq
  have hfollows : (b.reducedCost settings r excluded v).Follows
      (b.costStages settings r excluded v) := reducedCost_follows ht
  have hmem := hfollows.queries_prefix.subset hq
  rw [filterMap_query_costStages] at hmem
  obtain ⟨ci, hci, rfl⟩ := List.mem_map.mp hmem
  obtain ⟨family, hfamily, hindex⟩ := List.mem_flatMap.mp (List.mem_filter.mp hci).1
  obtain ⟨hfamily, haffine⟩ := List.mem_filter.mp hfamily
  exact ⟨family, hfamily, haffine, ci, hindex, rfl⟩

theorem stationaryDual_asks (ht : 0 ≤ settings.zeroTolerance) :
    (b.stationaryDual settings r ci).Asks (b.AsksDualOf r (·.isAffine = true)) := by
  refine (Asks.ofQuery _).bind fun f => ?_
  cases f with
  | singleVariable v => exact (reducedCost_asks ht ci v).bind fun _ => Asks.pure _
  | vectorOfVariables vs =>
    refine (Asks.mapM fun v _ => reducedCost_asks ht ci v).bind fun duals => ?_
    exact (Asks.ofQuery _).bind fun set => (Asks.ofChecked _).bind fun _ => Asks.pure _
  | _ => exact Asks.fail _

/-- The kinds of constraints whose duals are used in the dual objective. -/
def HasDualTerm (kind : FunctionKind) : Prop :=
  kind.isQuadratic = false ∧ kind ≠ .vectorOfVariables

theorem hasDualTerm_of_isAffine {kind : FunctionKind} (h : kind.isAffine = true) :
    HasDualTerm kind := by
  obtain ⟨hquadratic, hwise⟩ := FunctionKind.isAffine_iff.mp h
  refine ⟨hquadratic, ?_⟩
  rintro rfl
  cases hwise

theorem scalarDualOrRecovered_asks (ht : 0 ≤ settings.zeroTolerance)
    (h : b.AsksDualOf r HasDualTerm (.constraintDual ci r)) :
    (b.scalarDualOrRecovered settings r ci).Asks (b.AsksDualOf r HasDualTerm) := by
  refine (reportedScalarDual_asks h).recover fun e y hy => ?_
  split at hy
  · obtain rfl := Option.some.inj hy
    have hcosts : (b.stationaryDual settings r ci).Asks (b.AsksDualOf r HasDualTerm) :=
      (stationaryDual_asks ht).mono fun q hq => hq.mono fun _ => hasDualTerm_of_isAffine
    refine hcosts.bind fun value => ?_
    cases value with
    | scalar y => exact Asks.pure y
    | vector ys => exact Asks.fail _
  · cases hy

theorem dualTerm_asks (ht : 0 ≤ settings.zeroTolerance)
    (h : b.AsksDualOf r HasDualTerm (.constraintDual ci r)) (set : ConstraintSet α)
    (constant : Value α) :
    (b.dualTerm settings r ci set constant).Asks (b.AsksDualOf r HasDualTerm) := by
  cases constant with
  | scalar constant =>
    refine (scalarDualOrRecovered_asks ht h).bind fun y => ?_
    split
    · exact Asks.fail _
    · exact Asks.pure 0
    · exact Asks.pure _
  | vector constants =>
    exact (reportedVectorDual_asks h _).bind fun y =>
      (Asks.ofChecked _).bind fun _ => Asks.pure _

theorem loggedDualTerm_asks (ht : 0 ≤ settings.zeroTolerance)
    (h : b.AsksDualOf r HasDualTerm (.constraintDual ci r)) :
    (b.loggedDualTerm settings r ci).Asks (b.AsksDualOf r HasDualTerm) :=
  (Asks.ofQuery _).bind fun function => (Asks.ofQuery _).bind fun set =>
    (dualTerm_asks ht h set function.constant).bind fun _ =>
      (Asks.emit _).bind fun _ => Asks.pure _

theorem addFamilyDualObjective_asks (ht : 0 ≤ settings.zeroTolerance) {family : Family}
    (hfamily : family ∈ b.families) (value : α) :
    (b.addFamilyDualObjective settings r value family).Asks (b.AsksDualOf r HasDualTerm) := by
  unfold addFamilyDualObjective
  split
  · exact Asks.fail _
  · next hquadratic =>
    split
    · exact Asks.pure value
    · next hvariables =>
      refine Asks.foldlM (fun value ci hci => ?_) value
      have hquery : b.AsksDualOf r HasDualTerm (.constraintDual ci r) :=
        ⟨family, hfamily, ⟨eq_false_of_ne_true hquadratic, hvariables⟩, ci, hci, rfl⟩
      exact (loggedDualTerm_asks ht hquery).bind fun _ => Asks.pure _

omit [OrderedScalar α] in
theorem objectiveConstant_asks (f : ModelFunction α) : (objectiveConstant f).Asks P := by
  cases f <;> exact Asks.of_log rfl

/-- The dual objective asks for no dual of a list of variables, also where it recovers a dual. -/
theorem dualObjectiveValue_asks (ht : 0 ≤ settings.zeroTolerance) :
    (b.dualObjectiveValue settings r).Asks (b.AsksDualOf r HasDualTerm) := by
  refine Asks.concluded ?_ _ _ _
  refine (Asks.foldlM (fun value family hfamily =>
    addFamilyDualObjective_asks ht hfamily value) 0).bind fun sum => ?_
  dsimp only
  split
  · exact Asks.pure _
  · exact (Asks.ofQuery _).bind fun f => (objectiveConstant_asks f).bind fun _ => Asks.pure _

end Backend

/-! ### When it is found -/

namespace Store

variable {m : Store ℚ} {settings : Settings ℚ} {r : ℕ}

theorem contributes_iff {p : ConstraintIndex × Constraint ℚ} (hm : m.Valid)
    (ht : 0 ≤ settings.zeroTolerance) :
    m.Contributes settings r p ↔ p.2.function.kind.isQuadratic = false ∧
      (p.2.function.kind.isAffine = true → m.HasDual r p.1) ∧
      ∀ v, p.2.function = .singleVariable v → m.HasDual r p.1 ∨
        r < m.results.length ∧ ∃ x, (m.backend.reducedCost settings r p.1 v).Returns x := by
  have hcost (v : VariableIndex) :
      (∃ x, (m.backend.reducedCost settings r p.1 v).Returns x) ↔ m.HasCost settings r v p.1 :=
    (reducedCost_computes hm ht p.1).exists_returns
  simp only [hcost]
  constructor
  · intro h
    refine ⟨h.linear, h.reported, fun v hv => ?_⟩
    refine (h.recovered (by rw [hv]; rfl)).imp_right fun ⟨hr, hall⟩ => ⟨hr, hall v ?_⟩
    rw [hv]
    exact List.mem_singleton_self v
  · rintro ⟨hlinear, hreported, hrecovered⟩
    refine ⟨hlinear, hreported, fun hkind => ?_⟩
    obtain ⟨ci, f, set⟩ := p
    cases f with
    | singleVariable v =>
      refine (hrecovered v rfl).imp_right fun ⟨hr, hv⟩ => ⟨hr, fun w hw => ?_⟩
      exact List.mem_singleton.mp hw ▸ hv
    | _ => cases hkind

end Store

end DualRecovery
