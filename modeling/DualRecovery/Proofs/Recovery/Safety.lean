import DualRecovery.Proofs.ModelFunction.Occurrences
import DualRecovery.Proofs.ModelFunction.Shape
import DualRecovery.Proofs.Recovery.ReducedCost
import DualRecovery.Proofs.Trace.Meets

/-! Over any scalars, nothing that is recovered from a valid store faults, and every error comes
from the store or from what is reported. The values reported may be any: they are answers of their
own, beside those of the store. -/

namespace DualRecovery

open Traced

theorem ModelFunction.isScalar_constant {α : Type} [Zero α] (f : ModelFunction α) :
    f.constant.isScalar = f.kind.isScalar := by
  cases f <;> rfl

/-- A set of numbers has a bound, active or not. -/
theorem ConstraintSet.exists_activeBound {α : Type} [Scalar α] {s : ConstraintSet α}
    (h : s.isScalar = true) (y : α) : ∃ bound, s.activeBound? y = some bound := by
  cases s with
  | greaterThan c | lessThan c | equalTo c | interval l u => exact ⟨_, rfl⟩
  | _ => cases h

namespace Store

variable {α : Type}

/-- The backend that answers as the store does, except for the primal values and duals. -/
def answering (m : Store α) (primal : VariableIndex → ℕ → Except QueryError α)
    (dual : ConstraintIndex → ℕ → Except QueryError (Value α)) : Backend α :=
  { m.backend with primal, dual }

theorem answering_self (m : Store α) : m.answering m.primal m.dual = m.backend := rfl

/-- What an error at result `r` comes from: what the store holds and what is answered, or a
requested constraint that the store does not have. -/
def Explains (m : Store α) (primal : VariableIndex → ℕ → Except QueryError α)
    (dual : ConstraintIndex → ℕ → Except QueryError (Value α)) (r : ℕ)
    (requested : Option ConstraintIndex) : RecoveryError → Prop
  | .unsupportedObjective kind => kind = m.objective.kind
  | .unsupportedConstraint family =>
    family.kind.isQuadratic = true ∧ ∃ p ∈ m.numbered, p.1.family = family
  | .ambiguousVariable v _ other =>
    ∃ c, (other, c) ∈ m.numbered ∧ c.function.mentions v = true
  | .notVariableWise ci =>
    ∃ c, (ci, c) ∈ m.numbered ∧ c.function.kind.isVariableWise = false
  | .dimensionMismatch ci expected found =>
    ∃ c y, (ci, c) ∈ m.numbered ∧ dual ci r = .ok y ∧ c.admits y = false ∧
      expected = c.set.dimension ∧ found = y.length
  | .query cause =>
    (∃ v : VariableIndex, v.number < m.variableCount ∧ primal v r = .error cause) ∨
      (∃ p ∈ m.numbered, dual p.1 r = .error cause) ∨
      ∃ ci, requested = some ci ∧ m.constraint ci = .error cause

section

variable {m : Store α} {primal : VariableIndex → ℕ → Except QueryError α}
  {dual : ConstraintIndex → ℕ → Except QueryError (Value α)} {r : ℕ}
  {requested : Option ConstraintIndex} {p : ConstraintIndex × Constraint α}

theorem answering_function (hp : p ∈ m.numbered) :
    (m.answering primal dual).function p.1 = .ok p.2.function :=
  backend_function hp

theorem answering_set (hp : p ∈ m.numbered) :
    (m.answering primal dual).set p.1 = .ok p.2.set :=
  backend_set hp

theorem exists_mem_of_mem_indices {family : Family} {ci : ConstraintIndex}
    (h : ci ∈ m.indices family) : ∃ p ∈ m.numbered, p.1 = ci ∧ p.1.family = family := by
  rw [indices_eq, List.mem_map] at h
  obtain ⟨p, hp, hci⟩ := h
  obtain ⟨hp, hfamily⟩ := List.mem_filter.mp hp
  exact ⟨p, hp, hci, of_decide_eq_true hfamily⟩

theorem kind_of_mem_numbered (hp : p ∈ m.numbered) : p.1.family.kind = p.2.function.kind :=
  congrArg Family.kind (family_of_mem_numbered hp)

/-! ### Steps without arithmetic -/

theorem reportedDual_meets (hp : p ∈ m.numbered) :
    ((m.answering primal dual).reportedDual r p.1).Meets (fun y => dual p.1 r = .ok y)
      (m.Explains primal dual r requested) := by
  apply Meets.bind (Meets.note _)
  intro _ _
  apply Meets.ofQuery
  · exact fun _ hy => hy
  · exact fun cause hcause => Or.inr (Or.inl ⟨p, hp, hcause⟩)

theorem reportedScalarDual_meets (hm : m.Valid) (hp : p ∈ m.numbered)
    (hscalar : p.2.function.kind.isScalar = true) :
    ((m.answering primal dual).reportedScalarDual r p.1).Meets (fun _ => True)
      (m.Explains primal dual r requested) := by
  have hdimension : p.2.set.dimension = 1 :=
    ConstraintSet.dimension_of_isScalar ((hm.fits hp).isScalar.symm.trans hscalar)
  apply Meets.bind (reportedDual_meets hp)
  intro y hy
  cases y with
  | scalar y => exact Meets.pure trivial
  | vector ys =>
    have hadmits : p.2.admits (.vector ys) = false := by simp [Constraint.admits, hscalar]
    exact Meets.fail ⟨p.2, .vector ys, hp, hy, hadmits, hdimension.symm, rfl⟩

theorem reportedVectorDual_meets (hp : p ∈ m.numbered)
    (hscalar : p.2.function.kind.isScalar = false) {n : ℕ} (hn : n = p.2.set.dimension) :
    ((m.answering primal dual).reportedVectorDual r p.1 n).Meets (fun ys => ys.length = n)
      (m.Explains primal dual r requested) := by
  apply Meets.bind (reportedDual_meets hp)
  intro y hy
  cases y with
  | scalar y => exact Meets.fail ⟨p.2, .scalar y, hp, hy, hscalar, hn, rfl⟩
  | vector ys =>
    rw [Backend.asVectorDual]
    split
    · next hlength => exact Meets.pure hlength
    · next hlength =>
      have hadmits : p.2.admits (.vector ys) = false := by
        simp [Constraint.admits, hscalar, ← hn, hlength]
      exact Meets.fail ⟨p.2, .vector ys, hp, hy, hadmits, hn, rfl⟩

theorem checkUnrelated_meets (hp : p ∈ m.numbered) (excluded : ConstraintIndex)
    (v : VariableIndex) :
    ((m.answering primal dual).checkUnrelated excluded v p.1).Meets (fun _ => True)
      (m.Explains primal dual r requested) := by
  unfold Backend.checkUnrelated
  rw [answering_function hp, ofQuery_ok, pure_bind]
  split
  · next hv => exact Meets.fail ⟨p.2, hp, hv⟩
  · exact Meets.pure trivial

theorem unsupportedConstraint_explained {family : Family} (hfamily : family ∈ m.families)
    (hquadratic : family.kind.isQuadratic = true) :
    m.Explains primal dual r requested (.unsupportedConstraint family) := by
  obtain ⟨p, hp⟩ := exists_mem_of_mem_families hfamily
  obtain ⟨hp, hp'⟩ := List.mem_filter.mp hp
  exact ⟨hquadratic, p, hp, of_decide_eq_true hp'⟩

variable (primal dual) in
/-- A constraint that the store does not have is the one requested. -/
theorem requested_explained {ci : ConstraintIndex} (hci : ∀ c, (ci, c) ∉ m.numbered) :
    (m.answering primal dual).function ci = .error (.invalidConstraint ci) ∧
      m.Explains primal dual r (some ci) (.query (.invalidConstraint ci)) := by
  have herror : m.constraint ci = .error (.invalidConstraint ci) := by
    apply constraint_of_not_mem_numbered
    intro hmem
    obtain ⟨p, hp, rfl⟩ := List.mem_map.mp hmem
    exact hci p.2 hp
  exact ⟨congrArg (Except.map fun c : Constraint α => c.function) herror,
    Or.inr (Or.inr ⟨ci, rfl, herror⟩)⟩

end

/-! ### Reduced costs -/

variable [Scalar α] {m : Store α} {primal : VariableIndex → ℕ → Except QueryError α}
  {dual : ConstraintIndex → ℕ → Except QueryError (Value α)} {settings : Settings α} {r : ℕ}
  {requested : Option ConstraintIndex} {p : ConstraintIndex × Constraint α}

theorem adjointEntry_meets (hm : m.Valid) (hp : p ∈ m.numbered)
    (haffine : p.1.family.kind.isAffine = true) (v : VariableIndex) :
    ((m.answering primal dual).adjointEntry settings r v p.1).Meets (fun _ => True)
      (m.Explains primal dual r requested) := by
  have hfits := hm.fits hp
  rw [kind_of_mem_numbered hp] at haffine
  unfold Backend.adjointEntry
  rw [answering_function hp, ofQuery_ok, pure_bind]
  obtain ⟨ci, function, set⟩ := p
  cases function with
  | scalarAffine f =>
    dsimp only
    split
    · exact Meets.pure trivial
    · apply Meets.bind (reportedScalarDual_meets hm hp rfl)
      intro y _
      exact Meets.bind (Meets.emit _) fun _ _ => Meets.pure trivial
  | vectorAffine f =>
    obtain ⟨column, hcolumn, hlength⟩ := VectorAffine.exists_coefficient (f := f)
      (fun t ht => hfits.function.rows _ (List.mem_map_of_mem ht)) v
    have hdimension : column.length = set.dimension := hlength.trans hfits.dimension
    dsimp only
    rw [hcolumn, ofChecked_ok, pure_bind]
    split
    · exact Meets.pure trivial
    · apply Meets.bind (reportedVectorDual_meets hp rfl hdimension)
      intro ys hys
      obtain ⟨d, hd⟩ := InnerProduct.exists_dot set.fits_dimension hdimension
        (hys.trans hdimension)
      rw [answering_set hp, ofQuery_ok, pure_bind, hd, ofChecked_ok, pure_bind]
      exact Meets.bind (Meets.emit _) fun _ _ => Meets.pure trivial
  | _ => cases haffine

theorem familyAdjointEntry_meets (hm : m.Valid) {family : Family} (hfamily : family ∈ m.families)
    (excluded : ConstraintIndex) (v : VariableIndex) :
    ((m.answering primal dual).familyAdjointEntry settings r excluded v family).Meets
      (fun _ => True) (m.Explains primal dual r requested) := by
  unfold Backend.familyAdjointEntry
  split
  · next hquadratic => exact Meets.fail (unsupportedConstraint_explained hfamily hquadratic)
  · next hquadratic =>
    split
    · apply Meets.bind
      · apply Meets.forM
        intro ci hci
        obtain ⟨p, hp, rfl, -⟩ := exists_mem_of_mem_indices (List.mem_filter.mp hci).1
        exact checkUnrelated_meets hp excluded v
      · exact fun _ _ => Meets.pure trivial
    · next hwise =>
      apply Meets.foldlM _ trivial
      intro total _ ci hci
      obtain ⟨p, hp, rfl, rfl⟩ := exists_mem_of_mem_indices hci
      have haffine := FunctionKind.isAffine_iff.mpr
        ⟨Bool.eq_false_iff.mpr hquadratic, Bool.eq_false_iff.mpr hwise⟩
      exact Meets.bind (adjointEntry_meets hm hp haffine v) fun _ _ => Meets.pure trivial

theorem gradientEntry_meets (sign : α) (v : VariableIndex) :
    (Backend.gradientEntry sign v m.objective).Meets (fun _ => True)
      (m.Explains primal dual r requested) := by
  unfold Backend.gradientEntry
  split
  · exact Meets.pure trivial
  · exact Meets.pure trivial
  · exact Meets.fail (E := m.Explains primal dual r requested) rfl

theorem objectiveGradient_meets (v : VariableIndex) :
    ((m.answering primal dual).objectiveGradient r v).Meets (fun _ => True)
      (m.Explains primal dual r requested) := by
  unfold Backend.objectiveGradient
  split
  · exact Meets.pure trivial
  · split
    · exact gradientEntry_meets 1 v
    · exact gradientEntry_meets (-1) v
    · exact Meets.pure trivial

theorem reducedCost_meets (hm : m.Valid) (excluded : ConstraintIndex) (v : VariableIndex) :
    ((m.answering primal dual).reducedCost settings r excluded v).Meets (fun _ => True)
      (m.Explains primal dual r requested) := by
  apply Meets.bind (objectiveGradient_meets v)
  intro gradient _
  apply Meets.foldlM _ trivial
  intro d _ family hfamily
  exact Meets.bind (familyAdjointEntry_meets hm hfamily excluded v) fun _ _ => Meets.pure trivial

/-! ### Recovered duals -/

/-- What is recovered for a stored constraint on single variables is admitted as its dual. -/
theorem stationaryDual_meets (hm : m.Valid) (hp : p ∈ m.numbered) :
    ((m.answering primal dual).stationaryDual settings r p.1).Meets
      (fun y => p.2.admits y = true ∧ p.2.function.kind.isVariableWise = true)
      (m.Explains primal dual r requested) := by
  have hfits := hm.fits hp
  unfold Backend.stationaryDual
  rw [answering_function hp, ofQuery_ok, pure_bind]
  obtain ⟨ci, function, set⟩ := p
  cases function with
  | singleVariable v =>
    apply Meets.bind (reducedCost_meets hm ci v)
    exact fun _ _ => Meets.pure ⟨rfl, rfl⟩
  | vectorOfVariables vs =>
    apply Meets.bind (Meets.mapM fun v _ => reducedCost_meets hm ci v)
    rintro duals ⟨hlength, -⟩
    have hdimension : duals.length = set.dimension := hlength.trans hfits.dimension
    obtain ⟨ys, hys, hys'⟩ := InnerProduct.exists_represent set.fits_dimension hdimension
    rw [answering_set hp, ofQuery_ok, pure_bind, hys, ofChecked_ok, pure_bind]
    refine Meets.pure ⟨?_, rfl⟩
    exact (Constraint.admits_iff_vector rfl).mpr ⟨ys, rfl, hys'⟩
  | scalarAffine f => exact Meets.fail (E := m.Explains primal dual r requested) ⟨_, hp, rfl⟩
  | vectorAffine f => exact Meets.fail (E := m.Explains primal dual r requested) ⟨_, hp, rfl⟩
  | scalarQuadratic f => exact Meets.fail (E := m.Explains primal dual r requested) ⟨_, hp, rfl⟩
  | vectorQuadratic f => exact Meets.fail (E := m.Explains primal dual r requested) ⟨_, hp, rfl⟩

theorem recoverDual_meets (hm : m.Valid) (ci : ConstraintIndex) :
    ((m.answering primal dual).recoverDual settings r ci).Meets (fun _ => True)
      (m.Explains primal dual r (some ci)) := by
  apply Meets.concluded
  by_cases hci : ∃ c, (ci, c) ∈ m.numbered
  · obtain ⟨c, hc⟩ := hci
    exact (stationaryDual_meets hm hc).mono (fun _ _ => trivial) fun _ he => he
  · rw [not_exists] at hci
    obtain ⟨hfunction, hexplained⟩ := requested_explained primal dual hci
    unfold Backend.stationaryDual
    rw [hfunction]
    exact hexplained

/-! ### The dual objective -/

theorem scalarDualOrRecovered_meets (hm : m.Valid) (hp : p ∈ m.numbered)
    (hscalar : p.2.function.kind.isScalar = true) :
    ((m.answering primal dual).scalarDualOrRecovered settings r p.1).Meets (fun _ => True)
      (m.Explains primal dual r requested) := by
  apply Meets.recover (reportedScalarDual_meets hm hp hscalar)
  intro e x _ hx
  split at hx
  · obtain rfl := Option.some.inj hx
    apply Meets.bind (stationaryDual_meets hm hp)
    rintro y ⟨hy, -⟩
    obtain ⟨y, rfl⟩ := (Constraint.admits_iff_scalar hscalar).mp hy
    exact Meets.pure trivial
  · cases hx

theorem dualTerm_meets (hm : m.Valid) (hp : p ∈ m.numbered) :
    ((m.answering primal dual).dualTerm settings r p.1 p.2.set p.2.function.constant).Meets
      (fun _ => True) (m.Explains primal dual r requested) := by
  have hfits := hm.fits hp
  have hshape := p.2.function.isScalar_constant
  have hlength := p.2.function.length_constant
  unfold Backend.dualTerm
  cases hconstant : p.2.function.constant with
  | scalar constant =>
    rw [hconstant] at hshape
    apply Meets.bind (scalarDualOrRecovered_meets hm hp hshape.symm)
    intro y _
    obtain ⟨bound, hbound⟩ := ConstraintSet.exists_activeBound (hfits.isScalar ▸ hshape.symm) y
    rw [hbound]
    cases bound <;> exact Meets.pure trivial
  | vector constants =>
    rw [hconstant] at hshape hlength
    have hdimension : constants.length = p.2.set.dimension := hlength.trans hfits.dimension
    apply Meets.bind (reportedVectorDual_meets hp hshape.symm hdimension)
    intro ys hys
    obtain ⟨d, hd⟩ := InnerProduct.exists_dot p.2.set.fits_dimension hdimension
      (hys.trans hdimension)
    rw [hd, ofChecked_ok, pure_bind]
    exact Meets.pure trivial

theorem loggedDualTerm_meets (hm : m.Valid) (hp : p ∈ m.numbered) :
    ((m.answering primal dual).loggedDualTerm settings r p.1).Meets (fun _ => True)
      (m.Explains primal dual r requested) := by
  unfold Backend.loggedDualTerm
  rw [answering_function hp, ofQuery_ok, pure_bind, answering_set hp, ofQuery_ok, pure_bind]
  apply Meets.bind (dualTerm_meets hm hp)
  intro contribution _
  exact Meets.bind (Meets.emit _) fun _ _ => Meets.pure trivial

theorem addFamilyDualObjective_meets (hm : m.Valid) {family : Family}
    (hfamily : family ∈ m.families) (value : α) :
    ((m.answering primal dual).addFamilyDualObjective settings r value family).Meets
      (fun _ => True) (m.Explains primal dual r requested) := by
  unfold Backend.addFamilyDualObjective
  split
  · next hquadratic => exact Meets.fail (unsupportedConstraint_explained hfamily hquadratic)
  · split
    · exact Meets.pure trivial
    · apply Meets.foldlM _ trivial
      intro value _ ci hci
      obtain ⟨p, hp, rfl, -⟩ := exists_mem_of_mem_indices hci
      exact Meets.bind (loggedDualTerm_meets hm hp) fun _ _ => Meets.pure trivial

theorem objectiveConstant_meets :
    (Backend.objectiveConstant m.objective).Meets (fun _ => True)
      (m.Explains primal dual r requested) := by
  unfold Backend.objectiveConstant
  split
  · exact Meets.pure trivial
  · exact Meets.pure trivial
  · exact Meets.fail (E := m.Explains primal dual r requested) rfl

theorem dualObjectiveValue_meets (hm : m.Valid) :
    ((m.answering primal dual).dualObjectiveValue settings r).Meets (fun _ => True)
      (m.Explains primal dual r requested) := by
  apply Meets.concluded
  apply Meets.bind (Q := fun _ => True)
  · apply Meets.foldlM _ trivial
    intro value _ family hfamily
    exact addFamilyDualObjective_meets hm hfamily value
  · intro sum _
    dsimp only
    split
    · exact Meets.pure trivial
    · show (ofQuery (.ok m.objective) >>= _ : Traced α α).Meets _ _
      rw [ofQuery_ok, pure_bind]
      exact Meets.bind objectiveConstant_meets fun _ _ => Meets.pure trivial

/-! ### Values at the reported point -/

theorem valueAtPoint_meets {f : ModelFunction α} (hf : f.Fits m.variableCount) :
    ((m.answering primal dual).valueAtPoint settings r f).Meets (fun _ => True)
      (m.Explains primal dual r requested) := by
  unfold Backend.valueAtPoint
  apply Meets.bind (Q := fun x => x.SameShape f.constant)
  · rcases f.evaluate_cases hf.rows fun v => primal v r with
      ⟨x, hx, hshape⟩ | ⟨e, he, v, hv, hlookup⟩
    · rw [show (m.answering primal dual).primal = primal from rfl, hx]
      exact hshape
    · rw [show (m.answering primal dual).primal = primal from rfl, he]
      exact Or.inl ⟨v, hf.occurrences v hv, hlookup⟩
  · intro x hx
    apply Meets.bind (Q := fun _ => True)
    · unfold Backend.omitsConstant
      split
      · exact Meets.bind (Meets.note _) fun _ _ => Meets.pure trivial
      · exact Meets.pure trivial
    · intro omits _
      split
      · obtain ⟨d, hd⟩ := Value.exists_subtract hx
        exact Meets.ofChecked hd trivial
      · exact Meets.pure trivial

theorem objectiveValue_meets (hm : m.Valid) :
    ((m.answering primal dual).objectiveValue settings r).Meets (fun _ => True)
      (m.Explains primal dual r requested) := by
  apply Meets.concluded
  exact valueAtPoint_meets hm.objective

theorem constraintValue_meets (hm : m.Valid) (ci : ConstraintIndex) :
    ((m.answering primal dual).constraintValue settings r ci).Meets (fun _ => True)
      (m.Explains primal dual r (some ci)) := by
  apply Meets.concluded
  by_cases hci : ∃ c, (ci, c) ∈ m.numbered
  · obtain ⟨c, hc⟩ := hci
    rw [answering_function hc, ofQuery_ok, pure_bind]
    exact valueAtPoint_meets (hm.fits hc).function
  · rw [not_exists] at hci
    obtain ⟨hfunction, hexplained⟩ := requested_explained primal dual hci
    rw [hfunction]
    exact hexplained

end Store

end DualRecovery
