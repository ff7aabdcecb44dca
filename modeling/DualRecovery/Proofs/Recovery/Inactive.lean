import DualRecovery.Proofs.Recovery.NotANumber
import DualRecovery.Proofs.Recovery.Safety

/-! Scalar constraints with dual zero. If the way from its constant to its bound is finite, such a
constraint adds a zero to the dual objective, of either sign, and that makes no difference: no sum
that starts from the positive zero is a negative one. If it is infinite, the product with zero is no
number, and neither is the dual objective. Intervals are looked at by the sign of the dual first,
and may have any bounds. -/

namespace DualRecovery

open Scalar Traced

variable {α : Type} [Scalar α]

/-! ### Sums with a zero left out -/

section

variable [NeutralZero α] {κ : Type} {T T' : κ → Traced α α} {v w : α}

/-- Sums that start with anything but a negative zero do not become one. -/
theorem add_zero_of_returns_sum {ks : List κ}
    (h : (ks.foldlM (fun v k => do return v + (← T k)) v).Returns w) (hv : v + 0 = v) :
    w + 0 = w := by
  refine Returns.foldlM_keeps (P := fun v => v + 0 = v) (fun k _ v v' hstep hv => ?_) h (Or.inl hv)
  obtain ⟨t, -, ht⟩ := returns_bind.mp hstep
  exact returns_pure.mp ht ▸ NeutralZero.add_add_zero t hv

/-- Terms that make no difference can be left out of a sum. -/
theorem returns_sum_filter (P : κ → Bool) {ks : List κ}
    (hkeep : ∀ k ∈ ks, P k = true → ∀ t, (T k).Returns t ↔ (T' k).Returns t)
    (hdrop : ∀ k ∈ ks, P k = false → ∃ z, (T k).Returns z ∧ ∀ v, v + 0 = v → v + z = v)
    (hv : v + 0 = v) :
    (ks.foldlM (fun v k => do return v + (← T k)) v).Returns w ↔
      ((ks.filter P).foldlM (fun v k => do return v + (← T' k)) v).Returns w := by
  -- `hv` is carried along: at a negative zero, a zero that is left out would make a difference.
  induction ks generalizing v with
  | nil => rfl
  | cons k ks ih =>
    rw [List.forall_mem_cons] at hkeep hdrop
    have hstep {t : α} (ht : (T k).Returns t) :
        ((do return v + (← T k)) : Traced α α).Returns (v + t) :=
      returns_bind.mpr ⟨t, ht, returns_pure.mpr rfl⟩
    rw [List.foldlM_cons]
    cases hk : P k with
    | true =>
      rw [List.filter_cons_of_pos hk, List.foldlM_cons, bind_assoc, bind_assoc, returns_bind,
        returns_bind]
      simp only [pure_bind, hkeep.1 hk, ih hkeep.2 hdrop.2 (NeutralZero.add_add_zero _ hv)]
    | false =>
      obtain ⟨z, hz, hzero⟩ := hdrop.1 hk
      rw [List.filter_cons_of_neg (by simp [hk]), (hstep hz).bind_iff, hzero v hv]
      exact ih hkeep.2 hdrop.2 hv

theorem Backend.add_zero_of_addFamilyDualObjective {b : Backend α} {settings : Settings α} {r : ℕ}
    {family : Family} (h : (b.addFamilyDualObjective settings r v family).Returns w)
    (hv : v + 0 = v) : w + 0 = w := by
  unfold addFamilyDualObjective at h
  split_ifs at h
  · exact (returns_fail.mp h).elim
  · exact returns_pure.mp h ▸ hv
  · exact add_zero_of_returns_sum h hv

end

/-- Quadratic constraints have no part in a dual objective. -/
theorem Backend.isQuadratic_of_returns {b : Backend α} {settings : Settings α} {r : ℕ}
    {family : Family} (hfamily : family ∈ b.families) {value : α}
    (h : (b.dualObjectiveValue settings r).Returns value) : family.kind.isQuadratic = false := by
  rw [dualObjectiveValue, returns_concluded, dualObjective, returns_bind] at h
  obtain ⟨sum, hsum, -⟩ := h
  by_contra hquadratic
  rw [Bool.not_eq_false] at hquadratic
  refine Returns.foldlM_keeps (P := fun _ => False) (fun _ _ _ _ _ => id) hsum
    (Or.inr ⟨family, hfamily, fun v w hstep => ?_⟩)
  rw [addFamilyDualObjective, if_pos hquadratic] at hstep
  exact returns_fail.mp hstep

/-! ### A model without one of its constraints -/

/-- The constraint that is left out, and the new indices of the others. -/
structure Omission where
  index : ConstraintIndex
  kept : ConstraintIndex → ConstraintIndex

namespace Omission

variable (o : Omission)

/-- Another constraint under its new index. -/
def keep (p : ConstraintIndex × Constraint α) : ConstraintIndex × Constraint α :=
  (o.kept p.1, p.2)

/-- The constraints `cs'` are the constraints `cs` but for the one that is left out, enumerated in
the same order, and `b'` answers as `b` does. -/
structure Relates (r : ℕ) (b : Backend α) (cs : List (ConstraintIndex × Constraint α))
    (b' : Backend α) (cs' : List (ConstraintIndex × Constraint α)) : Prop where
  objective : b'.objective = b.objective
  sense : b'.sense = b.sense
  dualStatus : b'.dualStatus r = b.dualStatus r
  families : b'.families.Sublist b.families
  constraints : ∀ family, cs'.filter (·.1.family = family) =
    ((cs.filter (·.1.family = family)).filter (·.1 ≠ o.index)).map o.keep
  dual : ∀ p ∈ cs, p.1 ≠ o.index → ∀ y, b'.dual (o.kept p.1) r = .ok y ↔ b.dual p.1 r = .ok y

omit [Scalar α] in
/-- If the other constraints are in the same order altogether, they are so in each family. -/
theorem filter_family_eq (hkept : ∀ ci, (o.kept ci).family = ci.family)
    {cs cs' : List (ConstraintIndex × Constraint α)}
    (h : cs' = (cs.filter (·.1 ≠ o.index)).map o.keep) (family : Family) :
    cs'.filter (·.1.family = family) =
      ((cs.filter (·.1.family = family)).filter (·.1 ≠ o.index)).map o.keep := by
  rw [h, List.filter_map, List.filter_filter, List.filter_filter]
  refine congrArg (List.map o.keep) (List.filter_congr fun p _ => ?_)
  simp only [Function.comp_apply, keep, hkept, Bool.and_comm]

end Omission

namespace Constraint

/-- The way from the constant of the function to the bound of the set is finite, if there is one
bound. -/
def HasFiniteWay (c : Constraint α) : Prop :=
  ∀ bound constant, c.set.constant? = some bound → c.function.constant = .scalar constant →
    isFinite (bound - constant) = true

end Constraint

namespace Store

variable {m : Store α} {settings : Settings α} {r : ℕ} {p : ConstraintIndex × Constraint α} {y : α}

section

variable [NeutralZero α] (hp : p ∈ m.numbered) (hy : m.dual p.1 r = .ok (.scalar y))
  (hzero : (y == 0) = true)

include hp hy hzero

/-- What a constraint with dual zero adds makes no difference, if the way to its bound is finite. -/
theorem exists_returns_inactive (hm : m.Valid) (hscalar : p.2.set.isScalar = true)
    (hway : p.2.HasFiniteWay) :
    ∃ z, (m.backend.loggedDualTerm settings r p.1).Returns z ∧ ∀ v : α, v + 0 = v → v + z = v := by
  obtain ⟨constant, hconstant⟩ :=
    ModelFunction.exists_constant ((hm.fits hp).isScalar.trans hscalar)
  have hused : (m.backend.scalarDualOrRecovered settings r p.1).Returns y :=
    (Backend.returns_scalarDualOrRecovered fun _ => ⟨_, hy⟩).mpr hy
  simp only [Backend.returns_loggedDualTerm (backend_function hp) (backend_set hp), hconstant]
  rcases ConstraintSet.bound_cases hscalar with ⟨-, bound, hbound⟩ | ⟨lower, upper, hset⟩
  · refine ⟨_, (Backend.returns_dualTerm_bound hused hbound).mpr rfl, fun v hv => ?_⟩
    have hfinite := hway bound constant hbound hconstant
    exact NeutralZero.add_eq_of_beq_zero hv (NeutralZero.mul_beq_zero hfinite hzero)
  · obtain ⟨hpos, hneg⟩ := NeutralZero.not_lt_of_beq_zero hzero
    rw [hset]
    exact ⟨0, (Backend.returns_dualTerm_interval hused hpos hneg).mpr rfl, fun v hv => hv⟩

/-- An infinite way, times zero, is no number. -/
theorem isNaN_of_not_hasFiniteWay (hway : ¬p.2.HasFiniteWay) {t : α}
    (ht : (m.backend.loggedDualTerm settings r p.1).Returns t) : isNaN t = true := by
  have hused : (m.backend.scalarDualOrRecovered settings r p.1).Returns y :=
    (Backend.returns_scalarDualOrRecovered fun _ => ⟨_, hy⟩).mpr hy
  rw [Constraint.HasFiniteWay] at hway
  push Not at hway
  obtain ⟨bound, constant, hbound, hconstant, hinfinite⟩ := hway
  rw [Backend.returns_loggedDualTerm (backend_function hp) (backend_set hp), hconstant,
    Backend.returns_dualTerm_bound hused hbound] at ht
  exact ht ▸ NeutralZero.isNaN_mul_of_beq_zero (Bool.eq_false_of_not_eq_true hinfinite) hzero

end

/-- Of a model with a quadratic constraint no dual objective is found. -/
theorem isQuadratic_of_returns (hp : p ∈ m.numbered) {value : α}
    (h : (m.backend.dualObjectiveValue settings r).Returns value) :
    p.2.function.kind.isQuadratic = false :=
  kind_of_mem_numbered hp ▸ Backend.isQuadratic_of_returns (mem_families_of_mem_numbered hp) h

end Store

namespace Omission.Relates

variable {o : Omission} {m m' : Store α} {settings : Settings α} {r : ℕ} {v w : α}
  {p : ConstraintIndex × Constraint α}
  (h : o.Relates r m.backend m.numbered m'.backend m'.numbered)
  (hstored : ∀ p ∈ m.numbered, p.2.function.kind = .singleVariable → ∃ y, m.dual p.1 r = .ok y)

section

include h

omit [Scalar α] in
theorem mem_keep (hp : p ∈ m.numbered) (hne : p.1 ≠ o.index) :
    o.keep p ∈ m'.numbered ∧ (o.kept p.1).family = p.1.family := by
  have hkeep : o.keep p ∈ m'.numbered.filter (·.1.family = p.1.family) := by
    rw [h.constraints]
    refine List.mem_map_of_mem (List.mem_filter.mpr ⟨?_, decide_eq_true hne⟩)
    exact List.mem_filter.mpr ⟨hp, decide_eq_true rfl⟩
  exact (List.mem_filter.mp hkeep).imp_right of_decide_eq_true

omit [Scalar α] in
/-- A family that is not enumerated has no other constraint. -/
theorem eq_index (hp : p ∈ m.numbered) (hfamily : p.1.family ∉ m'.families) : p.1 = o.index := by
  by_contra hne
  obtain ⟨hkeep, hkept⟩ := h.mem_keep hp hne
  exact hfamily (hkept ▸ Store.mem_families_of_mem_numbered hkeep)

include hstored

theorem returns_loggedDualTerm (hp : p ∈ m.numbered) (hne : p.1 ≠ o.index)
    (hkind : p.2.function.kind ≠ .vectorOfVariables) (t : α) :
    (m.backend.loggedDualTerm settings r p.1).Returns t ↔
      (m'.backend.loggedDualTerm settings r (o.kept p.1)).Returns t := by
  have hkeep := (h.mem_keep hp hne).1
  have hdual := h.dual p hp hne
  have hwise (hwise : p.2.function.kind.isVariableWise = true) : ∃ y, m.dual p.1 r = .ok y :=
    hstored p hp (FunctionKind.eq_singleVariable_of_ne hwise hkind)
  have hfunction : m'.backend.function (o.kept p.1) = .ok p.2.function :=
    Store.backend_function hkeep
  have hset : m'.backend.set (o.kept p.1) = .ok p.2.set := Store.backend_set hkeep
  rw [Backend.returns_loggedDualTerm (Store.backend_function hp) (Store.backend_set hp),
    Backend.returns_loggedDualTerm hfunction hset]
  refine Backend.returns_dualTerm_congr hdual ?_ ?_ _ _
  · exact fun hfamily => hwise (Store.kind_of_mem_numbered hp ▸ hfamily)
  · intro hfamily
    obtain ⟨y, hy⟩ := hwise (Store.kind_of_mem_numbered hkeep ▸ hfamily)
    exact ⟨y, (hdual y).mpr hy⟩

end

/-! ### All constraints -/

section

variable [NeutralZero α]
  (hzero : ∀ p ∈ m.numbered, p.1 = o.index → ∃ z,
    (m.backend.loggedDualTerm settings r p.1).Returns z ∧ ∀ v : α, v + 0 = v → v + z = v)

include h hstored hzero

theorem returns_addFamilyDualObjective (family : Family) (hv : v + 0 = v) :
    (m.backend.addFamilyDualObjective settings r v family).Returns w ↔
      (m'.backend.addFamilyDualObjective settings r v family).Returns w := by
  unfold Backend.addFamilyDualObjective
  split_ifs with hquadratic hvariables
  · rfl
  · rfl
  · have hindices : m.backend.indices family =
        (m.numbered.filter (·.1.family = family)).map Prod.fst := m.indices_eq family
    have hindices' : m'.backend.indices family =
        ((m.numbered.filter (·.1.family = family)).filter (·.1 ≠ o.index)).map
          fun p => o.kept p.1 := by
      refine (m'.indices_eq family).trans ?_
      rw [h.constraints, List.map_map]
      rfl
    rw [hindices, hindices', List.foldlM_map, List.foldlM_map]
    refine returns_sum_filter (fun p : ConstraintIndex × Constraint α => decide (p.1 ≠ o.index))
      ?_ ?_ hv
    · intro p hp hne
      obtain ⟨hp, hfamily⟩ := List.mem_filter.mp hp
      refine h.returns_loggedDualTerm hstored hp (of_decide_eq_true hne) fun hkind => hvariables ?_
      rw [← of_decide_eq_true hfamily, Store.kind_of_mem_numbered hp, hkind]
    · intro p hp heq
      exact hzero p (List.mem_filter.mp hp).1 (not_not.mp (of_decide_eq_false heq))

/-- A family that is gone had no other constraint. -/
theorem returns_addFamilyDualObjective_gone
    (hlinear : ∀ p ∈ m.numbered, p.1 = o.index → p.2.function.kind.isQuadratic = false)
    {family : Family} (hfamily : family ∈ m.families) (hgone : family ∉ m'.families)
    (hv : v + 0 = v) :
    (m.backend.addFamilyDualObjective settings r v family).Returns w ↔ v = w := by
  obtain ⟨p, hmem⟩ := Store.exists_mem_of_mem_families hfamily
  obtain ⟨hp, hp'⟩ := List.mem_filter.mp hmem
  obtain rfl : p.1.family = family := of_decide_eq_true hp'
  have hquadratic : p.1.family.kind.isQuadratic = false :=
    Store.kind_of_mem_numbered hp ▸ hlinear p hp (h.eq_index hp hgone)
  have hempty : m'.backend.indices p.1.family = [] := by
    refine List.eq_nil_iff_forall_not_mem.mpr fun ci hci => hgone ?_
    obtain ⟨q, hq, -, hqfamily⟩ := Store.exists_mem_of_mem_indices hci
    exact hqfamily ▸ Store.mem_families_of_mem_numbered hq
  rw [h.returns_addFamilyDualObjective hstored hzero _ hv, Backend.addFamilyDualObjective,
    hempty, if_neg (by simp [hquadratic])]
  split_ifs
  · exact returns_pure
  · exact returns_pure

theorem returns_dualObjectiveValue
    (hlinear : ∀ p ∈ m.numbered, p.1 = o.index → p.2.function.kind.isQuadratic = false)
    {value : α} :
    (m.backend.dualObjectiveValue settings r).Returns value ↔
      (m'.backend.dualObjectiveValue settings r).Returns value := by
  have hsum (sum : α) :
      (m.backend.families.foldlM (m.backend.addFamilyDualObjective settings r) 0).Returns sum ↔
        (m'.backend.families.foldlM (m'.backend.addFamilyDualObjective settings r) 0).Returns sum :=
    returns_foldlM_sublist (P := fun v => v + 0 = v) h.families (nodup_eraseDups _)
      (fun _ _ _ _ hstep hv => Backend.add_zero_of_addFamilyDualObjective hstep hv)
      (fun family _ _ _ hv => h.returns_addFamilyDualObjective hstored hzero family hv)
      (fun _ hfamily hgone _ _ hv =>
        h.returns_addFamilyDualObjective_gone hstored hzero hlinear hfamily hgone hv)
      NeutralZero.zero_add_zero
  rw [Backend.dualObjectiveValue, Backend.dualObjectiveValue, returns_concluded, returns_concluded,
    Backend.dualObjective, Backend.dualObjective, returns_bind, returns_bind, h.sense, h.dualStatus,
    h.objective]
  exact exists_congr fun sum => and_congr_left' (hsum sum)

omit hzero in
/-- The dual objective is found without the constraint, unless that is quadratic, just if it is
found with it. -/
theorem returns_dualObjectiveValue_iff (hm : m.Valid) (hp : p ∈ m.numbered)
    (hindex : o.index = p.1) (hscalar : p.2.set.isScalar = true) {y : α}
    (hy : m.dual p.1 r = .ok (.scalar y)) (hyzero : (y == 0) = true) (hway : p.2.HasFiniteWay)
    {value : α} :
    (m.backend.dualObjectiveValue settings r).Returns value ↔
      p.2.function.kind.isQuadratic = false ∧
        (m'.backend.dualObjectiveValue settings r).Returns value := by
  have hself {q : ConstraintIndex × Constraint α} (hq : q ∈ m.numbered) (heq : q.1 = o.index) :
      q = p := Store.eq_of_mem_numbered hq hp (heq.trans hindex)
  have hinactive : ∀ q ∈ m.numbered, q.1 = o.index → ∃ z,
      (m.backend.loggedDualTerm settings r q.1).Returns z ∧ ∀ v : α, v + 0 = v → v + z = v := by
    intro q hq heq
    obtain rfl := hself hq heq
    exact Store.exists_returns_inactive hp hy hyzero hm hscalar hway
  have hiff (hlinear : p.2.function.kind.isQuadratic = false) :
      (m.backend.dualObjectiveValue settings r).Returns value ↔
        (m'.backend.dualObjectiveValue settings r).Returns value :=
    h.returns_dualObjectiveValue hstored hinactive fun q hq heq => hself hq heq ▸ hlinear
  constructor
  · intro hreturns
    have hlinear := Store.isQuadratic_of_returns hp hreturns
    exact ⟨hlinear, (hiff hlinear).mp hreturns⟩
  · exact fun ⟨hlinear, hreturns⟩ => (hiff hlinear).mpr hreturns

end

end Omission.Relates

end DualRecovery
