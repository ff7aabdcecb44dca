import DualRecovery.Proofs.Recovery.Split
import DualRecovery.Proofs.Store.Attained

/-! A vector affine constraint of a store can be split in its place: the constraints on its rows
stand where it stood, and the constraints after it move up. What was reported stays, but for its
duals, which are cut up into their entries. -/

namespace DualRecovery

open Store

/-! ### Numbers -/

section

variable {α : Type} {n : ℕ} {cs : List (Constraint α)}

/-- Constraints with their indices, where the first has number `n`. -/
def numberFrom (n : ℕ) (cs : List (Constraint α)) : List (ConstraintIndex × Constraint α) :=
  (cs.zipIdx n).map fun c => (⟨c.1.family, c.2⟩, c.1)

theorem numberFrom_append (cs cs' : List (Constraint α)) :
    numberFrom n (cs ++ cs') = numberFrom n cs ++ numberFrom (n + cs.length) cs' := by
  rw [numberFrom, List.zipIdx_append, List.map_append]
  rfl

theorem numberFrom_cons (c : Constraint α) (cs : List (Constraint α)) :
    numberFrom n (c :: cs) = (⟨c.family, n⟩, c) :: numberFrom (n + 1) cs := rfl

theorem number_of_mem_numberFrom {p : ConstraintIndex × Constraint α} (h : p ∈ numberFrom n cs) :
    n ≤ p.1.number ∧ p.1.number < n + cs.length := by
  obtain ⟨c, hc, rfl⟩ := List.mem_map.mp h
  exact ⟨List.le_snd_of_mem_zipIdx hc, List.snd_lt_add_of_mem_zipIdx hc⟩

theorem number_lt_of_mem_take {i : ℕ} {p : ConstraintIndex × Constraint α}
    (h : p ∈ numberFrom 0 (cs.take i)) : p.1.number < i := by
  have hlt := (number_of_mem_numberFrom h).2
  rw [Nat.zero_add, List.length_take] at hlt
  exact hlt.trans_le (Nat.min_le_left _ _)

theorem numberFrom_add (k : ℕ) (cs : List (Constraint α)) :
    numberFrom (n + k) cs =
      (numberFrom n cs).map fun p => (⟨p.1.family, p.1.number + k⟩, p.2) := by
  rw [numberFrom, Nat.add_comm, ← List.map_snd_add_zipIdx_eq_zipIdx, numberFrom, List.map_map,
    List.map_map]
  rfl

theorem numbered_around {m : Store α} {p : ConstraintIndex × Constraint α} (h : p ∈ m.numbered) :
    m.numbered = numberFrom 0 (m.constraints.take p.1.number) ++
      p :: numberFrom (p.1.number + 1) (m.constraints.drop (p.1.number + 1)) := by
  have hget := (constraint?_eq_some_iff.mp (mem_numbered.mp h)).1
  obtain ⟨hlt, hc⟩ := List.getElem?_eq_some_iff.mp hget
  have hlength : (m.constraints.take p.1.number).length = p.1.number :=
    List.length_take_of_le hlt.le
  have hindex : (⟨p.2.family, p.1.number⟩ : ConstraintIndex) = p.1 := by
    rw [← family_of_mem_numbered h]
  calc m.numbered
      = numberFrom 0 (m.constraints.take p.1.number ++ m.constraints.drop p.1.number) := by
        rw [List.take_append_drop]
        rfl
    _ = _ := by
        rw [numberFrom_append, hlength, Nat.zero_add, List.drop_eq_getElem_cons hlt, hc,
          numberFrom_cons, hindex]

end

/-! ### The split -/

namespace Split

/-- The split where the rows take the place of the constraint. -/
def inPlace (index : ConstraintIndex) (function : VectorAffine ℚ) (cone : RowCone)
    (dual : List ℚ) : Split where
  index := index
  function := function
  cone := cone
  dual := dual
  kept ci :=
    if ci.number < index.number then ci
    else ⟨ci.family, ci.number - 1 + function.constants.length⟩
  row k := ⟨⟨.scalarAffine, cone.entries.tag⟩, index.number + k⟩

end Split

namespace Store

variable (m : Store ℚ) (index : ConstraintIndex) (function : VectorAffine ℚ) (cone : RowCone)

/-- The dual of row `k`, if that of the constraint is there. -/
def rowDual? (duals : ConstraintIndex → Option (Value ℚ)) (k : ℕ) : Option (Value ℚ) :=
  match duals index with
  | some (.vector ys) => ys[k]?.map .scalar
  | _ => none

/-- The dual of a constraint after the split, from those before it. -/
def splitDual? (duals : ConstraintIndex → Option (Value ℚ)) (ci : ConstraintIndex) :
    Option (Value ℚ) :=
  if ci.number < index.number then duals ci
  else if ci.number < index.number + function.constants.length then
    rowDual? index duals (ci.number - index.number)
  else duals ⟨ci.family, ci.number - function.constants.length + 1⟩

/-- The constraints on the rows. -/
def rowConstraints : List (Constraint ℚ) :=
  (List.range function.constants.length).map fun k => ⟨.scalarAffine (function.row k), cone.entries⟩

def splitConstraints : List (Constraint ℚ) :=
  m.constraints.take index.number ++ rowConstraints function cone ++
    m.constraints.drop (index.number + 1)

def splitResult (result : Result ℚ) : Result ℚ :=
  { result with
    duals := .ofValues ((numberFrom 0 (splitConstraints m index function cone)).map (·.1))
      (splitDual? index function result.duals.get?) }

/-- The store with the constraints on the rows in place of the constraint. -/
def split : Store ℚ :=
  { m with
    constraints := splitConstraints m index function cone
    results := m.results.map (splitResult m index function cone) }

end Store

namespace Split

variable {m : Store ℚ} {index : ConstraintIndex} {function : VectorAffine ℚ} {cone : RowCone}
  {ys : List ℚ}

theorem keep_of_lt {p : ConstraintIndex × Constraint ℚ} (h : p.1.number < index.number) :
    (inPlace index function cone ys).keep p = p :=
  Prod.ext (if_pos h) rfl

theorem keep_of_gt {p : ConstraintIndex × Constraint ℚ} (h : index.number < p.1.number) :
    (inPlace index function cone ys).keep p =
      (⟨p.1.family, p.1.number - 1 + function.constants.length⟩, p.2) :=
  Prod.ext (if_neg (Nat.not_lt.mpr h.le)) rfl

variable (ys) in
theorem numberFrom_rowConstraints :
    numberFrom index.number (rowConstraints function cone) =
      (List.range function.constants.length).map (inPlace index function cone ys).scalar := by
  refine List.ext_getElem (by simp [numberFrom, rowConstraints]) fun k hk hk' => ?_
  simp only [numberFrom, rowConstraints, List.getElem_map, List.getElem_zipIdx,
    List.getElem_range]
  rfl

variable (h : (inPlace index function cone ys).vector ∈ m.numbered)

include h

/-- The other constraints are those before it and those after it. -/
theorem others_eq : m.numbered.filter (·.1 ≠ index) =
    numberFrom 0 (m.constraints.take index.number) ++
      numberFrom (index.number + 1) (m.constraints.drop (index.number + 1)) := by
  have hbefore : ∀ p ∈ numberFrom 0 (m.constraints.take index.number), p.1 ≠ index := by
    intro p hp heq
    have hlt := number_lt_of_mem_take hp
    rw [heq] at hlt
    exact lt_irrefl _ hlt
  have hafter : ∀ p ∈ numberFrom (index.number + 1) (m.constraints.drop (index.number + 1)),
      p.1 ≠ index := by
    intro p hp heq
    have hle := (number_of_mem_numberFrom hp).1
    rw [heq] at hle
    exact Nat.not_succ_le_self _ hle
  have haround := numbered_around h
  have hself : (inPlace index function cone ys).vector.1 = index := rfl
  rw [hself] at haround
  rw [haround, List.filter_append, List.filter_cons, hself, if_neg (by simp),
    List.filter_eq_self.mpr fun p hp => decide_eq_true (hbefore p hp),
    List.filter_eq_self.mpr fun p hp => decide_eq_true (hafter p hp)]

/-- The constraints before it stay where they are, and those after it move up. -/
theorem map_keep_others :
    (m.numbered.filter (·.1 ≠ index)).map (inPlace index function cone ys).keep =
      numberFrom 0 (m.constraints.take index.number) ++
        numberFrom (index.number + function.constants.length)
          (m.constraints.drop (index.number + 1)) := by
  rw [others_eq h, List.map_append, numberFrom_add, numberFrom_add, List.map_map]
  refine congrArg₂ (· ++ ·) ?_ (List.map_congr_left fun p hp => ?_)
  · exact (List.map_congr_left fun p hp => keep_of_lt (number_lt_of_mem_take hp)).trans
      (List.map_id _)
  · exact keep_of_gt (Nat.lt_succ_of_le (number_of_mem_numberFrom hp).1)

theorem perm_numbered_split : (m.split index function cone).numbered.Perm
    ((m.numbered.filter (·.1 ≠ index)).map (inPlace index function cone ys).keep ++
      (List.range function.constants.length).map (inPlace index function cone ys).scalar) := by
  have hlt := m.number_lt_of_mem_numbered h
  have hlength : (m.constraints.take index.number).length = index.number :=
    List.length_take_of_le (le_of_lt hlt)
  have hrows : (rowConstraints function cone).length = function.constants.length := by
    simp [rowConstraints]
  have hnumbered : (m.split index function cone).numbered =
      numberFrom 0 (m.constraints.take index.number) ++
        numberFrom index.number (rowConstraints function cone) ++
          numberFrom (index.number + function.constants.length)
            (m.constraints.drop (index.number + 1)) := by
    show numberFrom 0 (splitConstraints m index function cone) = _
    rw [splitConstraints, numberFrom_append, numberFrom_append, List.length_append, hlength,
      hrows, Nat.zero_add, Nat.zero_add]
  rw [hnumbered, map_keep_others h, numberFrom_rowConstraints ys, List.append_assoc,
    List.append_assoc]
  exact List.Perm.append_left _ List.perm_append_comm

/-! ### Duals after the split -/

theorem splitDual?_kept {duals : ConstraintIndex → Option (Value ℚ)}
    {p : ConstraintIndex × Constraint ℚ} (hp : p ∈ m.numbered) (hne : p.1 ≠ index) :
    splitDual? index function duals ((inPlace index function cone ys).kept p.1) = duals p.1 := by
  have hmem : p ∈ m.numbered.filter (·.1 ≠ index) :=
    List.mem_filter.mpr ⟨hp, decide_eq_true hne⟩
  rw [others_eq h] at hmem
  rcases List.mem_append.mp hmem with hbefore | hafter
  · have hlt := number_lt_of_mem_take hbefore
    have hkept : (inPlace index function cone ys).kept p.1 = p.1 := if_pos hlt
    rw [hkept, splitDual?, if_pos hlt]
  · have hgt := (number_of_mem_numberFrom hafter).1
    have hkept : (inPlace index function cone ys).kept p.1 =
        ⟨p.1.family, p.1.number - 1 + function.constants.length⟩ := if_neg (by omega)
    have hback : p.1.number - 1 + function.constants.length - function.constants.length + 1 =
        p.1.number := by omega
    simp only [hkept, splitDual?]
    rw [if_neg (by omega), if_neg (by omega), hback]

omit h in
theorem splitDual?_row {duals : ConstraintIndex → Option (Value ℚ)} {k : ℕ}
    (hk : k < function.constants.length) :
    splitDual? index function duals ((inPlace index function cone ys).row k) =
      rowDual? index duals k := by
  have hnumber : ((inPlace index function cone ys).row k).number = index.number + k := rfl
  rw [splitDual?, hnumber, if_neg (by omega), if_pos (by omega), Nat.add_sub_cancel_left]

omit h in
theorem exists_scalar_of_rowDual? {duals : ConstraintIndex → Option (Value ℚ)} {k : ℕ}
    {y : Value ℚ} (hy : rowDual? index duals k = some y) : ∃ x, y = .scalar x := by
  unfold rowDual? at hy
  split at hy
  · obtain ⟨x, -, rfl⟩ := Option.map_eq_some_iff.mp hy
    exact ⟨x, rfl⟩
  · cases hy

omit h in
theorem get?_duals_splitResult {result : Result ℚ} {ci : ConstraintIndex} {y : Value ℚ} :
    (splitResult m index function cone result).duals.get? ci = some y ↔
      ci ∈ (m.split index function cone).numbered.map (·.1) ∧
        splitDual? index function result.duals.get? ci = some y := by
  rw [splitResult, Assignment.get?_ofValues]
  show (if ci ∈ (m.split index function cone).numbered.map (·.1) then _ else _) = _ ↔ _
  split
  · next hci => exact (and_iff_right hci).symm
  · next hci => exact iff_of_false (Option.some_ne_none y).symm fun hall => hci hall.1

/-- Constraints after the split are those that are kept and those on the rows. -/
theorem mem_numbered_split {q : ConstraintIndex × Constraint ℚ} :
    q ∈ (m.split index function cone).numbered ↔
      (∃ p ∈ m.numbered, p.1 ≠ index ∧ (inPlace index function cone ys).keep p = q) ∨
        ∃ k < function.constants.length, (inPlace index function cone ys).scalar k = q := by
  rw [(perm_numbered_split h).mem_iff, List.mem_append, List.mem_map, List.mem_map]
  simp only [List.mem_filter, decide_eq_true_eq, and_assoc, List.mem_range]

/-! ### Validity -/

theorem fits_row (hm : m.Valid) (k : ℕ) :
    ((inPlace index function cone ys).scalar k).2.Fits m.variableCount where
  function :=
    { occurrences := fun v hv => by
        obtain ⟨t, ht, rfl⟩ := List.mem_map.mp hv
        obtain ⟨t', ht', rfl⟩ := VectorAffine.exists_of_mem_row ht
        exact (hm.fits h).function.occurrences _ (List.mem_map_of_mem ht')
      rows := fun _ hrow => absurd hrow List.not_mem_nil }
  isScalar := by cases cone <;> rfl
  dimension := by cases cone <;> rfl
  size := by cases cone <;> rfl

theorem valid_split (hm : m.Valid) : (m.split index function cone).Valid where
  constraints c hc := by
    rcases List.mem_append.mp hc with hc | hc
    · rcases List.mem_append.mp hc with hc | hc
      · exact hm.constraints c (List.mem_of_mem_take hc)
      · obtain ⟨k, -, rfl⟩ := List.mem_map.mp hc
        exact fits_row h hm k
    · exact hm.constraints c (List.mem_of_mem_drop hc)
  objective := hm.objective
  duals result hresult ci y hy := by
    obtain ⟨old, hold, rfl⟩ := List.mem_map.mp hresult
    obtain ⟨hci, hy⟩ := get?_duals_splitResult.mp hy
    obtain ⟨q, hq, rfl⟩ := List.mem_map.mp hci
    refine ⟨q.2, mem_numbered.mp hq, ?_⟩
    rcases (mem_numbered_split h).mp hq with ⟨p, hp, hne, rfl⟩ | ⟨k, hk, rfl⟩
    · have hdual : old.duals.get? p.1 = some y := (splitDual?_kept h hp hne).symm.trans hy
      obtain ⟨c, hc, hadmits⟩ := hm.duals old hold p.1 y hdual
      rw [mem_numbered.mp hp] at hc
      obtain rfl := Option.some.inj hc
      exact hadmits
    · replace hy : splitDual? index function old.duals.get?
          ((inPlace index function cone ys).row k) = some y := hy
      rw [splitDual?_row hk] at hy
      obtain ⟨x, rfl⟩ := exists_scalar_of_rowDual? hy
      rfl

/-! ### What is answered after the split -/

omit h in
theorem splitResult_empty : splitResult m index function cone .empty = .empty := by
  have hnone (ci : ConstraintIndex) :
      splitDual? index function (Result.empty : Result ℚ).duals.get? ci = none := by
    unfold splitDual? rowDual?
    split
    · rfl
    · split <;> rfl
  exact congrArg (Result.mk .noSolution .noSolution .empty) (Assignment.ofValues_eq_empty hnone)

omit h in
theorem resultAt_split (r : ℕ) : (m.split index function cone).resultAt r =
    splitResult m index function cone (m.resultAt r) :=
  resultAt_of_map rfl splitResult_empty r

omit h in
theorem length_results_split :
    (m.split index function cone).results.length = m.results.length :=
  List.length_map _

theorem dual_kept {r : ℕ} {p : ConstraintIndex × Constraint ℚ} (hp : p ∈ m.numbered)
    (hne : p.1 ≠ index) (y : Value ℚ) :
    (m.split index function cone).dual ((inPlace index function cone ys).kept p.1) r = .ok y ↔
      m.dual p.1 r = .ok y := by
  have hkept : (inPlace index function cone ys).kept p.1 ∈
      (m.split index function cone).numbered.map (·.1) :=
    List.mem_map.mpr ⟨_, (mem_numbered_split h).mpr (.inl ⟨p, hp, hne, rfl⟩), rfl⟩
  rw [dual_eq_ok_iff, dual_eq_ok_iff, resultAt_split, length_results_split,
    get?_duals_splitResult, splitDual?_kept h hp hne, and_iff_right hkept, and_iff_right hkept,
    and_iff_right (List.mem_map_of_mem hp)]

theorem dual_row (hm : m.Valid) {r k : ℕ} (hk : k < function.constants.length)
    (hdual : m.dual index r = .ok (.vector ys)) :
    (m.split index function cone).dual ((inPlace index function cone ys).row k) r =
      .ok (.scalar (ys.getD k 0)) := by
  have hlength : ys.length = function.constants.length :=
    (inPlace index function cone ys).length_dual hm h hdual
  have hlt : k < ys.length := hk.trans_eq hlength.symm
  obtain ⟨-, hr, hget⟩ := dual_eq_ok_iff.mp hdual
  have hrow : rowDual? index (m.resultAt r).duals.get? k = some (.scalar (ys.getD k 0)) := by
    rw [rowDual?, hget, List.getD_eq_getElem _ _ hlt]
    exact congrArg (Option.map Value.scalar) (List.getElem?_eq_getElem hlt)
  have hmem := (mem_numbered_split h).mpr (.inr ⟨k, hk, rfl⟩)
  refine dual_eq_ok_iff.mpr ⟨List.mem_map_of_mem hmem, hr.trans_eq length_results_split.symm, ?_⟩
  rw [resultAt_split]
  exact get?_duals_splitResult.mpr ⟨List.mem_map_of_mem hmem, (splitDual?_row hk).trans hrow⟩

theorem relates_inPlace (hm : m.Valid) {r : ℕ} (hdual : m.dual index r = .ok (.vector ys)) :
    (inPlace index function cone ys).Relates r m.backend m.numbered
      (m.split index function cone).backend (m.split index function cone).numbered where
  objective := rfl
  sense := rfl
  primal v := by
    show (m.split index function cone).primal v r = m.primal v r
    rw [primal_eq, primal_eq, resultAt_split, length_results_split]
    rfl
  primalStatus := by
    show (m.split index function cone).primalStatus r = m.primalStatus r
    rw [primalStatus_eq, primalStatus_eq, resultAt_split]
    rfl
  dualStatus := by
    show (m.split index function cone).dualStatus r = m.dualStatus r
    rw [dualStatus_eq, dualStatus_eq, resultAt_split]
    rfl
  mem := h
  constraints := perm_numbered_split h
  dual := hdual
  keptDual _ hp hne y := dual_kept h hp hne y
  rowDual _ hk := dual_row h hm hk hdual

end Split

end DualRecovery
