import DualRecovery.Proofs.Arithmetic
import DualRecovery.Proofs.Recovery.ReducedCost

/-! What one constraint adds to the dual objective at the dual that is used of it, in the arithmetic
of the scalars. -/

namespace DualRecovery

open Scalar Traced

variable {α : Type} [Scalar α]

namespace ConstraintSet

theorem activeBound?_of_constant? {s : ConstraintSet α} {bound : α}
    (h : s.constant? = some bound) (y : α) : s.activeBound? y = some (some bound) := by
  cases s with
  | greaterThan c | lessThan c | equalTo c => exact congrArg some h
  | _ => cases h

omit [Scalar α] in
/-- A set of numbers has one bound, or is an interval. -/
theorem bound_cases {s : ConstraintSet α} (h : s.isScalar = true) :
    (s.tag ≠ .interval ∧ ∃ bound, s.constant? = some bound) ∨
      ∃ lower upper, s = .interval lower upper := by
  cases s with
  | greaterThan c | lessThan c | equalTo c => exact Or.inl ⟨nofun, c, rfl⟩
  | interval lower upper => exact Or.inr ⟨lower, upper, rfl⟩
  | _ => cases h

end ConstraintSet

theorem FunctionKind.eq_singleVariable_of_ne {kind : FunctionKind}
    (h : kind.isVariableWise = true) (hne : kind ≠ .vectorOfVariables) :
    kind = .singleVariable := by
  cases kind with
  | singleVariable => rfl
  | vectorOfVariables => exact absurd rfl hne
  | _ => cases h

theorem FunctionKind.ne_vectorOfVariables {kind : FunctionKind} (h : kind.isScalar = true) :
    kind ≠ .vectorOfVariables := by
  rintro rfl
  cases h

theorem ModelFunction.exists_constant {f : ModelFunction α} (h : f.kind.isScalar = true) :
    ∃ c, f.constant = .scalar c := by
  cases f with
  | singleVariable v => exact ⟨0, rfl⟩
  | scalarAffine f => exact ⟨f.constant, rfl⟩
  | scalarQuadratic f => exact ⟨f.constant, rfl⟩
  | _ => cases h

namespace Backend

variable {b : Backend α} {settings : Settings α} {r : ℕ} {ci : ConstraintIndex} {t : α}

theorem returns_loggedDualTerm {f : ModelFunction α} {set : ConstraintSet α}
    (hf : b.function ci = .ok f) (hset : b.set ci = .ok set) :
    (b.loggedDualTerm settings r ci).Returns t ↔
      (b.dualTerm settings r ci set f.constant).Returns t := by
  have hemit (x : α) :
      (do emit (.objectiveContribution ci x); return x : Traced α α).Returns t ↔ x = t :=
    ⟨Except.ok.inj, congrArg Except.ok⟩
  rw [loggedDualTerm, hf, hset, ofQuery_ok, pure_bind, ofQuery_ok, pure_bind, returns_bind]
  simp only [hemit, exists_eq_right]

section

variable {set : ConstraintSet α} {constant y : α}

theorem returns_dualTerm_scalar (hy : (b.scalarDualOrRecovered settings r ci).Returns y)
    {bound? : Option α} (hactive : set.activeBound? y = some bound?) :
    (b.dualTerm settings r ci set (.scalar constant)).Returns t ↔
      t = bound?.elim 0 fun bound => (bound - constant) * y := by
  rw [dualTerm, hy.bind_iff, hactive]
  cases bound? with
  | none => exact returns_pure.trans eq_comm
  | some bound => exact returns_pure.trans eq_comm

/-- A set of one bound adds the product with the way from the constant to the bound. -/
theorem returns_dualTerm_bound (hy : (b.scalarDualOrRecovered settings r ci).Returns y) {bound : α}
    (hbound : set.constant? = some bound) :
    (b.dualTerm settings r ci set (.scalar constant)).Returns t ↔ t = (bound - constant) * y :=
  returns_dualTerm_scalar hy (ConstraintSet.activeBound?_of_constant? hbound y)

/-- An interval adds nothing at a dual that has no sign. -/
theorem returns_dualTerm_interval (hy : (b.scalarDualOrRecovered settings r ci).Returns y)
    {lower upper : α} (hpos : ¬0 < y) (hneg : ¬y < 0) :
    (b.dualTerm settings r ci (.interval lower upper) (.scalar constant)).Returns t ↔ t = 0 := by
  have hactive : (ConstraintSet.interval lower upper).activeBound? y = some none := by
    rw [ConstraintSet.activeBound?, if_neg hpos, if_neg hneg]
  exact returns_dualTerm_scalar hy hactive

end

theorem returns_dualTerm_vector {set : ConstraintSet α} {constants ys : List α}
    (hys : b.dual ci r = .ok (.vector ys)) :
    (b.dualTerm settings r ci set (.vector constants)).Returns t ↔
      ys.length = constants.length ∧ ∃ d, set.innerProduct.dot constants ys = .ok d ∧ t = -d := by
  unfold dualTerm
  simp only [returns_bind, returns_reportedVectorDual, returns_ofChecked, returns_pure, hys]
  constructor
  · rintro ⟨ys', ⟨hys', hlength⟩, d, hd, rfl⟩
    cases hys'
    exact ⟨hlength, d, hd, rfl⟩
  · rintro ⟨hlength, d, hd, rfl⟩
    exact ⟨ys, ⟨rfl, hlength⟩, d, hd, rfl⟩

/-- The dual that is used is the reported one, where no other can be recovered or none has to. -/
theorem returns_scalarDualOrRecovered
    (hstored : ci.family.kind.isVariableWise = true → ∃ y, b.dual ci r = .ok y) {y : α} :
    (b.scalarDualOrRecovered settings r ci).Returns y ↔ b.dual ci r = .ok (.scalar y) := by
  rw [scalarDualOrRecovered, returns_recover, returns_reportedScalarDual]
  refine or_iff_left ?_
  rintro ⟨e, x, herror, hx, -⟩
  split_ifs at hx with hrecovers
  obtain ⟨y', hy'⟩ := hstored hrecovers.2
  have hreported : (b.reportedScalarDual r ci).outcome = (asScalarDual ci y').outcome := by
    rw [reportedScalarDual, reportedDual, hy']
    rfl
  rw [hreported] at herror
  cases y' with
  | scalar x => cases herror
  | vector ys =>
    cases herror
    cases hrecovers.1

/-- Where no dual is recovered, what a constraint adds depends on what is reported for it. -/
theorem returns_dualTerm_congr {b' : Backend α} {ci' : ConstraintIndex}
    (hdual : ∀ y, b'.dual ci' r = .ok y ↔ b.dual ci r = .ok y)
    (hstored : ci.family.kind.isVariableWise = true → ∃ y, b.dual ci r = .ok y)
    (hstored' : ci'.family.kind.isVariableWise = true → ∃ y, b'.dual ci' r = .ok y)
    (set : ConstraintSet α) (constant : Value α) :
    (b.dualTerm settings r ci set constant).Returns t ↔
      (b'.dualTerm settings r ci' set constant).Returns t := by
  cases constant with
  | scalar c =>
    simp only [dualTerm, returns_bind, returns_scalarDualOrRecovered hstored,
      returns_scalarDualOrRecovered hstored', hdual]
    refine exists_congr fun y => and_congr_right fun _ => ?_
    rcases set.activeBound? y with _ | _ | bound
    · exact returns_fail.trans returns_fail.symm
    · rfl
    · rfl
  | vector constants =>
    simp only [dualTerm, returns_bind, returns_reportedVectorDual, hdual]

end Backend

end DualRecovery
