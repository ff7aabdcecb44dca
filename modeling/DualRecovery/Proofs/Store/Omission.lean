import DualRecovery.Proofs.Recovery.Inactive
import DualRecovery.Proofs.Store.Attained

/-! Any constraint of a store can be left out. The others are put together family by family, in the
order in which they were enumerated, so that they are enumerated in that order again, even where the
one that is left out was the first of its family. -/

namespace DualRecovery

open Store

/-! ### Lists put together by a key -/

section

variable {β κ : Type} [DecidableEq κ] {key : β → κ} {xs : κ → List β}

omit [DecidableEq κ] in
theorem key_mem_of_mem_flatMap (hkey : ∀ k, ∀ x ∈ xs k, key x = k) {keys : List κ} {x : β}
    (h : x ∈ keys.flatMap xs) : key x ∈ keys := by
  obtain ⟨k, hk, hx⟩ := List.mem_flatMap.mp h
  rwa [hkey k x hx]

theorem filter_flatMap_eq (hkey : ∀ k, ∀ x ∈ xs k, key x = k) {keys : List κ}
    (hnodup : keys.Nodup) {k : κ} (hk : k ∈ keys) :
    (keys.flatMap xs).filter (key · = k) = xs k := by
  have hself (k) : (xs k).filter (key · = k) = xs k :=
    List.filter_eq_self.mpr fun x hx => decide_eq_true (hkey k x hx)
  induction keys with
  | nil => cases hk
  | cons k' keys ih =>
    obtain ⟨hk', hnodup⟩ := List.nodup_cons.mp hnodup
    rw [List.flatMap_cons, List.filter_append]
    rcases List.mem_cons.mp hk with rfl | hk
    · rw [hself, List.filter_eq_nil_iff.mpr, List.append_nil]
      intro x hx heq
      exact hk' (of_decide_eq_true heq ▸ key_mem_of_mem_flatMap hkey hx)
    · rw [ih hnodup hk, List.filter_eq_nil_iff.mpr, List.nil_append]
      intro x hx heq
      obtain rfl : k' = k := (hkey k' x hx).symm.trans (of_decide_eq_true heq)
      exact hk' hk

theorem eraseDups_map_of_forall_eq {xs : List β} {k : κ} (hkey : ∀ x ∈ xs, key x = k)
    (hne : xs ≠ []) : (xs.map key).eraseDups = [k] := by
  obtain ⟨x, xs, rfl⟩ := List.exists_cons_of_ne_nil hne
  rw [List.forall_mem_cons] at hkey
  rw [List.map_cons, hkey.1, List.eraseDups_cons, List.filter_eq_nil_iff.mpr]
  · rfl
  · intro k' hk'
    obtain ⟨x, hx, rfl⟩ := List.mem_map.mp hk'
    simp [hkey.2 x hx]

/-- The keys come in the order in which they were gone through. -/
theorem eraseDups_map_flatMap_sublist (hkey : ∀ k, ∀ x ∈ xs k, key x = k) {keys : List κ}
    (hnodup : keys.Nodup) : ((keys.flatMap xs).map key).eraseDups.Sublist keys := by
  induction keys with
  | nil => exact List.Sublist.slnil
  | cons k keys ih =>
    obtain ⟨hk, hnodup⟩ := List.nodup_cons.mp hnodup
    rw [List.flatMap_cons, List.map_append, List.eraseDups_append]
    by_cases hnil : xs k = []
    · simp only [hnil, List.map_nil, List.eraseDups_nil, List.nil_append, List.removeAll_nil]
      exact (ih hnodup).cons k
    · have hrest : ((keys.flatMap xs).map key).removeAll ((xs k).map key) =
          (keys.flatMap xs).map key := by
        refine List.filter_eq_self.mpr fun k' hk' => ?_
        obtain ⟨x, hx, rfl⟩ := List.mem_map.mp hk'
        have hne : key x ≠ k := fun heq => hk (heq ▸ key_mem_of_mem_flatMap hkey hx)
        have hnot : key x ∉ (xs k).map key := fun h => by
          obtain ⟨y, hy, heq⟩ := List.mem_map.mp h
          exact hne (heq.symm.trans (hkey k y hy))
        simpa using hnot
      rw [eraseDups_map_of_forall_eq (hkey k) hnil, hrest]
      exact (ih hnodup).cons_cons k

end

variable {α : Type}

/-! ### The store without the constraint -/

namespace Store

variable (m : Store α) (index : ConstraintIndex)

/-- The other constraints with their indices, family by family. -/
def others : List (ConstraintIndex × Constraint α) :=
  (m.families.flatMap fun family => m.numbered.filter (·.1.family = family)).filter (·.1 ≠ index)

/-- The dual of another constraint under its new index, from those under the old ones. -/
def otherDual? (duals : ConstraintIndex → Option (Value α)) (ci : ConstraintIndex) :
    Option (Value α) :=
  (m.others index)[ci.number]?.bind fun p => duals p.1

/-- The others take the numbers of their places. -/
def omission : Omission :=
  ⟨index, fun ci => ⟨ci.family, ((m.others index).map (·.1)).idxOf ci⟩⟩

def omitResult (result : Result α) : Result α :=
  { result with
    duals := .ofValues ((m.others index).map fun p => (m.omission index).kept p.1)
      (m.otherDual? index result.duals.get?) }

def without : Store α :=
  { m with
    constraints := (m.others index).map (·.2)
    results := m.results.map (m.omitResult index) }

variable {m index}

theorem mem_others {p : ConstraintIndex × Constraint α} :
    p ∈ m.others index ↔ p ∈ m.numbered ∧ p.1 ≠ index := by
  rw [others, List.mem_filter, m.perm_families.mem_iff, decide_eq_true_eq]

theorem filter_families_eq (family : Family) :
    (m.families.flatMap fun family => m.numbered.filter (·.1.family = family)).filter
      (·.1.family = family) = m.numbered.filter (·.1.family = family) := by
  by_cases hfamily : family ∈ m.families
  · have hkey (family) : ∀ p ∈ m.numbered.filter (·.1.family = family), p.1.family = family :=
      fun p hp => of_decide_eq_true (List.mem_filter.mp hp).2
    exact filter_flatMap_eq hkey (nodup_eraseDups _) hfamily
  · have hnone (p) (hp : p ∈ m.numbered) : ¬decide (p.1.family = family) = true := fun heq =>
      hfamily (of_decide_eq_true heq ▸ mem_families_of_mem_numbered hp)
    rw [List.filter_eq_nil_iff.mpr hnone, List.filter_eq_nil_iff]
    exact fun p hp => hnone p (m.perm_families.mem_iff.mp hp)

theorem filter_others (family : Family) : (m.others index).filter (·.1.family = family) =
    (m.numbered.filter (·.1.family = family)).filter (·.1 ≠ index) := by
  rw [others, List.filter_comm, filter_families_eq]

theorem nodup_others : ((m.others index).map (·.1)).Nodup := by
  have hnodup : (m.others index).Nodup :=
    (m.perm_families.nodup_iff.mpr m.nodup_numbered).filter _
  exact hnodup.map_on fun p hp q hq =>
    eq_of_mem_numbered (mem_others.mp hp).1 (mem_others.mp hq).1

theorem number_kept {k : ℕ} (hk : k < (m.others index).length) :
    ((m.omission index).kept (m.others index)[k].1).number = k := by
  have hindex := nodup_others.idxOf_getElem k
    (by simpa using hk : k < ((m.others index).map (·.1)).length)
  rwa [List.getElem_map] at hindex

theorem numbered_without :
    (m.without index).numbered = (m.others index).map (m.omission index).keep := by
  refine List.ext_getElem (by simp [numbered, without]) fun k hk hk' => ?_
  have hlt : k < (m.others index).length := by simpa using hk'
  have hfamily := family_of_mem_numbered (mem_others.mp (List.getElem_mem hlt)).1
  simp only [numbered, without, List.getElem_map, List.getElem_zipIdx, Nat.zero_add]
  refine Prod.ext ?_ rfl
  -- The others have different indices, so that each of them is found first at its own place.
  show (⟨(m.others index)[k].2.family, k⟩ : ConstraintIndex) =
    ⟨(m.others index)[k].1.family, ((m.omission index).kept (m.others index)[k].1).number⟩
  rw [hfamily, number_kept hlt]

theorem families_without : (m.without index).families.Sublist m.families := by
  have hfamilies : (m.without index).families =
      ((m.families.flatMap fun family => (m.numbered.filter (·.1.family = family)).filter
        (·.1 ≠ index)).map (·.1.family)).eraseDups := by
    rw [← List.filter_flatMap, families, ← map_family_numbered, numbered_without, List.map_map]
    rfl
  rw [hfamilies]
  refine eraseDups_map_flatMap_sublist (fun family p hp => ?_) (nodup_eraseDups _)
  exact of_decide_eq_true (List.mem_filter.mp (List.mem_filter.mp hp).1).2

/-! ### Duals -/

theorem otherDual?_kept {duals : ConstraintIndex → Option (Value α)}
    {p : ConstraintIndex × Constraint α} (hp : p ∈ m.others index) :
    m.otherDual? index duals ((m.omission index).kept p.1) = duals p.1 := by
  obtain ⟨k, hk, rfl⟩ := List.getElem_of_mem hp
  rw [otherDual?, number_kept hk, List.getElem?_eq_getElem hk]
  rfl

theorem exists_of_get?_duals_omitResult {result : Result α} {ci : ConstraintIndex} {y : Value α}
    (hy : (m.omitResult index result).duals.get? ci = some y) :
    ∃ p ∈ m.others index, (m.omission index).kept p.1 = ci ∧ result.duals.get? p.1 = some y := by
  rw [omitResult, Assignment.get?_ofValues] at hy
  split_ifs at hy with hci
  obtain ⟨p, hp, rfl⟩ := List.mem_map.mp hci
  exact ⟨p, hp, rfl, (otherDual?_kept hp).symm.trans hy⟩

theorem valid_without (hm : m.Valid) (index : ConstraintIndex) : (m.without index).Valid where
  constraints c hc := by
    obtain ⟨p, hp, rfl⟩ := List.mem_map.mp hc
    exact hm.fits (mem_others.mp hp).1
  objective := hm.objective
  duals result hresult ci y hy := by
    obtain ⟨old, hold, rfl⟩ := List.mem_map.mp hresult
    obtain ⟨p, hp, rfl, hdual⟩ := exists_of_get?_duals_omitResult hy
    have hkeep : (m.omission index).keep p ∈ (m.without index).numbered :=
      numbered_without ▸ List.mem_map_of_mem hp
    obtain ⟨c, hc, hadmits⟩ := hm.duals old hold p.1 y hdual
    rw [mem_numbered.mp (mem_others.mp hp).1] at hc
    obtain rfl := Option.some.inj hc
    exact ⟨p.2, mem_numbered.mp hkeep, hadmits⟩

theorem omitResult_empty : m.omitResult index .empty = .empty := by
  have hnone (ci) : m.otherDual? index (Result.empty : Result α).duals.get? ci = none := by
    unfold otherDual?
    cases (m.others index)[ci.number]? <;> rfl
  exact congrArg (Result.mk .noSolution .noSolution .empty) (Assignment.ofValues_eq_empty hnone)

theorem resultAt_without (r : ℕ) :
    (m.without index).resultAt r = m.omitResult index (m.resultAt r) :=
  resultAt_of_map rfl omitResult_empty r

theorem dual_without {r : ℕ} {p : ConstraintIndex × Constraint α} (hp : p ∈ m.others index)
    (y : Value α) :
    (m.without index).dual ((m.omission index).kept p.1) r = .ok y ↔ m.dual p.1 r = .ok y := by
  have hkept : (m.omission index).kept p.1 ∈ (m.without index).numbered.map (·.1) := by
    rw [numbered_without, List.map_map]
    exact List.mem_map_of_mem (f := fun p => (m.omission index).kept p.1) hp
  have hcount : (m.without index).results.length = m.results.length := List.length_map _
  rw [dual_eq_ok_iff, dual_eq_ok_iff, resultAt_without, hcount, and_iff_right hkept,
    and_iff_right (List.mem_map_of_mem (mem_others.mp hp).1)]
  refine and_congr_right fun _ => ?_
  rw [omitResult, Assignment.get?_ofValues, if_pos (List.mem_map_of_mem hp), otherDual?_kept hp]

theorem relates_without (r : ℕ) : (m.omission index).Relates r m.backend m.numbered
    (m.without index).backend (m.without index).numbered where
  objective := rfl
  sense := rfl
  dualStatus := by
    show (m.without index).dualStatus r = m.dualStatus r
    rw [dualStatus_eq, dualStatus_eq, resultAt_without]
    rfl
  families := families_without
  constraints family := by
    rw [numbered_without, List.filter_map]
    exact congrArg (List.map _) (filter_others family)
  dual p hp hne y := dual_without (mem_others.mpr ⟨hp, hne⟩) y

end Store

end DualRecovery
