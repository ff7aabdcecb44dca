import DualRecovery.Proofs.ModelFunction.Rows
import DualRecovery.Proofs.Trace.Returns

/-! The values of affine functions at a reported result, of which any may be missing. The value of a
vector function is the list of the values of its rows, with or without the constants. -/

namespace DualRecovery.Backend

open Traced

section

variable {α : Type} {b : Backend α} {settings : Settings α} {r : ℕ}

/-- Values at the result are given without constants. -/
def Omits (b : Backend α) (settings : Settings α) (r : ℕ) : Prop :=
  settings.omitsRayConstant = true ∧ (b.primalStatus r).isRay = true

instance : Decidable (b.Omits settings r) := inferInstanceAs (Decidable (_ ∧ _))

theorem returns_omitsConstant {omits : Bool} :
    (b.omitsConstant settings r).Returns omits ↔ omits = decide (b.Omits settings r) := by
  unfold omitsConstant
  by_cases hpolicy : settings.omitsRayConstant = true
  · have homits : decide (b.Omits settings r) = (b.primalStatus r).isRay := by
      simp [Omits, hpolicy]
    rw [if_pos hpolicy, homits]
    exact ⟨fun h => (Except.ok.inj h).symm, fun h => h ▸ rfl⟩
  · rw [if_neg hpolicy, decide_eq_false fun h => hpolicy h.1, returns_pure, eq_comm]

end

variable {b : Backend ℚ} {settings : Settings ℚ} {r : ℕ}

theorem returns_valueAtPoint_iff {f : ModelFunction ℚ} {value : Value ℚ} :
    (b.valueAtPoint settings r f).Returns value ↔
      ∃ full, f.evaluate (fun v => b.primal v r) = .ok full ∧
        if b.Omits settings r then full.subtract f.constant = .ok value else full = value := by
  unfold valueAtPoint
  simp only [returns_bind, returns_ofEvaluation, returns_omitsConstant, exists_eq_left,
    decide_eq_true_eq]
  refine exists_congr fun full => and_congr_right fun _ => ?_
  split
  · exact returns_ofChecked
  · exact returns_pure

/-- The value of a scalar affine function at the result, where variables without a value are
zero. -/
def pointValue (b : Backend ℚ) (settings : Settings ℚ) (r : ℕ) (f : ScalarAffine ℚ) : ℚ :=
  f.linear (Lookup.known fun v => b.primal v r) +
    if b.Omits settings r then 0 else f.constant

theorem returns_valueAtPoint_scalarAffine {f : ScalarAffine ℚ} {value : Value ℚ} :
    (b.valueAtPoint settings r (.scalarAffine f)).Returns value ↔
      (∀ t ∈ f.terms, ∃ x, b.primal t.var r = .ok x) ∧
        value = .scalar (b.pointValue settings r f) := by
  rw [returns_valueAtPoint_iff, pointValue]
  simp only [ModelFunction.evaluate_scalarAffine_iff, and_assoc, exists_and_left, exists_eq_left]
  refine and_congr_right fun _ => ?_
  split
  · show Except.ok (Value.scalar (f.linear _ + f.constant - f.constant)) = .ok value ↔ _
    rw [add_sub_cancel_right, add_zero, Except.ok.injEq, eq_comm]
  · exact eq_comm

theorem returns_valueAtPoint_vectorAffine {f : VectorAffine ℚ}
    (hrow : ∀ t ∈ f.terms, t.row < f.constants.length) {value : Value ℚ} :
    (b.valueAtPoint settings r (.vectorAffine f)).Returns value ↔
      (∀ t ∈ f.terms, ∃ x, b.primal t.term.var r = .ok x) ∧
        value = .vector ((List.range f.constants.length).map fun k =>
          b.pointValue settings r (f.row k)) := by
  rw [returns_valueAtPoint_iff]
  simp only [ModelFunction.evaluate_vectorAffine_iff hrow, and_assoc, exists_and_left,
    exists_eq_left, pointValue]
  refine and_congr_right fun _ => ?_
  split
  · have hcombine (x : VariableIndex → ℚ) : combine (-1) f.constants 1
        ((List.range f.constants.length).map fun k => (f.row k).linear x + (f.row k).constant) =
        .ok ((List.range f.constants.length).map fun k => (f.row k).linear x + 0) := by
      refine (ofSameLength_of_eq (by simp) _).trans (congrArg Except.ok ?_)
      refine List.ext_getElem (by simp) fun k hk hk' => ?_
      have hlt : k < f.constants.length := by simpa using hk'
      have hconstant : (f.row k).constant = f.constants[k] := List.getD_eq_getElem _ _ hlt
      rw [List.getElem_zipWith, List.getElem_map, List.getElem_map, List.getElem_range, hconstant]
      ring
    show Value.vector <$> combine (-1) f.constants 1 _ = .ok value ↔ _
    rw [hcombine]
    show Except.ok (Value.vector _) = .ok value ↔ _
    rw [Except.ok.injEq, eq_comm]
  · exact eq_comm

/-- The value of a vector function is the list of the values of its rows. -/
theorem returns_valueAtPoint_rows {f : VectorAffine ℚ}
    (hrow : ∀ t ∈ f.terms, t.row < f.constants.length) {value : Value ℚ} :
    (b.valueAtPoint settings r (.vectorAffine f)).Returns value ↔
      ∃ xs, value = .vector xs ∧ xs.length = f.constants.length ∧
        ∀ k (hk : k < xs.length),
          (b.valueAtPoint settings r (.scalarAffine (f.row k))).Returns (.scalar xs[k]) := by
  rw [returns_valueAtPoint_vectorAffine hrow,
    ← f.forall_rows_iff hrow (P := fun t => ∃ x, b.primal t.var r = .ok x)]
  simp only [returns_valueAtPoint_scalarAffine, Value.scalar.injEq]
  constructor
  · rintro ⟨hall, rfl⟩
    refine ⟨_, rfl, by simp, fun k hk => ⟨hall k (by simpa using hk), by simp⟩⟩
  · rintro ⟨xs, rfl, hlength, hxs⟩
    refine ⟨fun k hk => (hxs k (hlength ▸ hk)).1, congrArg Value.vector ?_⟩
    refine List.ext_getElem (by simpa using hlength) fun k hk hk' => ?_
    rw [(hxs k hk).2, List.getElem_map, List.getElem_range]

/-- The values of variables at the result and its status are all that is asked for. -/
theorem valueAtPoint_congr {b' : Backend ℚ} (hprimal : ∀ v, b'.primal v r = b.primal v r)
    (hstatus : b'.primalStatus r = b.primalStatus r) (f : ModelFunction ℚ) :
    b'.valueAtPoint settings r f = b.valueAtPoint settings r f := by
  unfold valueAtPoint omitsConstant
  rw [funext hprimal, hstatus]

end DualRecovery.Backend
