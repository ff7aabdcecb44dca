import Mathlib
import DualRecovery.Proofs.ModelFunction.Occurrences
import DualRecovery.Proofs.Store.Validity

/-! The constraints of a store with their indices, in the order in which they were added. Going
through the families, and in each family through its constraints, meets each of them once. -/

namespace DualRecovery

/-! ### Lists cut up by a key -/

theorem eraseDups_concat {κ : Type} [DecidableEq κ] (keys : List κ) (key : κ) :
    (keys ++ [key]).eraseDups =
      if key ∈ keys then keys.eraseDups else keys.eraseDups ++ [key] := by
  rw [List.eraseDups_append]
  split
  · next h => simp [List.removeAll, h]
  · next h => simp [List.removeAll, h, List.eraseDups_cons]

/-- What a list holds under each of the keys of its elements makes up the list. -/
theorem perm_flatMap_filter {β κ : Type} [DecidableEq κ] (key : β → κ) {keys : List κ}
    (hnodup : keys.Nodup) {xs : List β} (hmem : ∀ x ∈ xs, key x ∈ keys) :
    (keys.flatMap fun k => xs.filter (key · = k)).Perm xs := by
  induction keys generalizing xs with
  | nil =>
    obtain rfl := List.eq_nil_iff_forall_not_mem.mpr fun x hx => List.not_mem_nil (hmem x hx)
    exact List.Perm.nil
  | cons k keys ih =>
    obtain ⟨hk, hnodup⟩ := List.nodup_cons.mp hnodup
    have hrest : (keys.flatMap fun k' => xs.filter (key · = k')) =
        keys.flatMap fun k' => (xs.filter fun x => !decide (key x = k)).filter (key · = k') := by
      refine List.flatMap_congr fun k' hk' => ?_
      rw [List.filter_filter]
      refine List.filter_congr fun x _ => ?_
      by_cases hx : key x = k'
      · simp [hx, show k' ≠ k from fun h => hk (h ▸ hk')]
      · simp [hx]
    rw [List.flatMap_cons, hrest]
    refine (List.Perm.append_left _ (ih hnodup fun x hx => ?_)).trans
      (List.filter_append_perm (fun x => decide (key x = k)) xs)
    obtain ⟨hx, hne⟩ := List.mem_filter.mp hx
    exact (List.mem_cons.mp (hmem x hx)).resolve_left (by simpa using hne)

namespace Store

variable {α : Type} (m : Store α)

/-- The constraints and their indices. -/
def numbered : List (ConstraintIndex × Constraint α) :=
  m.constraints.zipIdx.map fun c => (⟨c.1.family, c.2⟩, c.1)

variable {m}

theorem mem_numbered {p : ConstraintIndex × Constraint α} :
    p ∈ m.numbered ↔ m.constraint? p.1 = some p.2 := by
  obtain ⟨⟨family, k⟩, c⟩ := p
  rw [constraint?_eq_some_iff, numbered, List.mem_map]
  constructor
  · rintro ⟨⟨c', k'⟩, hmem, heq⟩
    simp only [Prod.mk.injEq, ConstraintIndex.mk.injEq] at heq
    obtain ⟨⟨hfamily, rfl⟩, rfl⟩ := heq
    exact ⟨List.mem_zipIdx_iff_getElem?.mp hmem, hfamily⟩
  · rintro ⟨hget, hfamily⟩
    refine ⟨(c, k), List.mem_zipIdx_iff_getElem?.mpr hget, ?_⟩
    rw [hfamily]

theorem family_of_mem_numbered {p : ConstraintIndex × Constraint α} (h : p ∈ m.numbered) :
    p.1.family = p.2.family :=
  (constraint?_eq_some_iff.mp (mem_numbered.mp h)).2.symm

theorem mem_constraints_of_mem_numbered {p : ConstraintIndex × Constraint α}
    (h : p ∈ m.numbered) : p.2 ∈ m.constraints :=
  List.mem_of_getElem? (constraint?_eq_some_iff.mp (mem_numbered.mp h)).1

theorem Valid.fits {p : ConstraintIndex × Constraint α} (hm : m.Valid) (hp : p ∈ m.numbered) :
    p.2.Fits m.variableCount :=
  hm.constraints _ (mem_constraints_of_mem_numbered hp)

theorem constraint_of_mem_numbered {p : ConstraintIndex × Constraint α} (h : p ∈ m.numbered) :
    m.constraint p.1 = .ok p.2 :=
  constraint_eq_ok_iff.mpr (mem_numbered.mp h)

theorem constraint_of_not_mem_numbered {ci : ConstraintIndex} (h : ci ∉ m.numbered.map (·.1)) :
    m.constraint ci = .error (.invalidConstraint ci) := by
  rw [constraint]
  cases hc : m.constraint? ci with
  | none => rfl
  | some c =>
    have hmem : (ci, c) ∈ m.numbered := mem_numbered.mpr hc
    exact absurd (List.mem_map_of_mem hmem) h

theorem eq_of_mem_numbered {p q : ConstraintIndex × Constraint α} (hp : p ∈ m.numbered)
    (hq : q ∈ m.numbered) (h : p.1 = q.1) : p = q := by
  have heq := mem_numbered.mp hp
  rw [h, mem_numbered.mp hq] at heq
  exact Prod.ext h (Option.some.inj heq).symm

variable (m)

theorem nodup_numbered : m.numbered.Nodup := by
  refine List.Nodup.of_map (·.1.number) ?_
  have hmap : m.numbered.map (·.1.number) = List.range m.constraints.length := by
    rw [numbered, List.map_map]
    exact (List.zipIdx_map_snd 0 m.constraints).trans List.range_eq_range'.symm
  rw [hmap]
  exact List.nodup_range

theorem map_family_numbered : m.numbered.map (·.1.family) = m.constraints.map (·.family) := by
  rw [numbered, List.map_map]
  exact (List.map_map (f := Prod.fst) (g := Constraint.family)).symm.trans
    (congrArg (List.map Constraint.family) (List.zipIdx_map_fst 0 m.constraints))

theorem lookup_numbered (ci : ConstraintIndex) : m.numbered.lookup ci = m.constraint? ci := by
  ext c
  constructor
  · intro h
    obtain ⟨before, after, heq, -⟩ := List.lookup_eq_some_iff.mp h
    have hmem : (ci, c) ∈ m.numbered := by simp [heq]
    exact mem_numbered.mp hmem
  · intro h
    have hmem : (ci, c) ∈ m.numbered := mem_numbered.mpr h
    obtain ⟨c', hc'⟩ := Option.isSome_iff_exists.mp
      (List.lookup_isSome_iff.mpr ⟨_, hmem, beq_self_eq_true ci⟩)
    obtain ⟨before, after, heq, -⟩ := List.lookup_eq_some_iff.mp hc'
    have hmem' : (ci, c') ∈ m.numbered := by simp [heq]
    have hsame : c' = c := congrArg Prod.snd (eq_of_mem_numbered hmem' hmem rfl)
    rw [hc', hsame]

theorem number_lt_of_mem_numbered {p : ConstraintIndex × Constraint α} (h : p ∈ m.numbered) :
    p.1.number < m.constraints.length :=
  (List.getElem?_eq_some_iff.mp (constraint?_eq_some_iff.mp (mem_numbered.mp h)).1).1

/-- A new constraint comes after all others. -/
theorem numbered_append (c : Constraint α) :
    ({ m with constraints := m.constraints ++ [c] } : Store α).numbered =
      m.numbered ++ [(⟨c.family, m.constraints.length⟩, c)] := by
  rw [numbered, List.zipIdx_append, List.map_append, Nat.zero_add]
  rfl

theorem indices_eq (family : Family) :
    m.indices family = (m.numbered.filter (·.1.family = family)).map Prod.fst := by
  rw [indices, numbered, List.filter_map, List.map_map]
  refine List.map_congr_left fun c hc => ?_
  have hfamily : c.1.family = family := by simpa using (List.mem_filter.mp hc).2
  simp [hfamily]

theorem families_append (c : Constraint α) :
    ({ m with constraints := m.constraints ++ [c] } : Store α).families =
      if c.family ∈ m.families then m.families else m.families ++ [c.family] := by
  rw [families, families, List.map_append, List.map_cons, List.map_nil, eraseDups_concat]
  simp only [List.mem_eraseDups]

theorem indices_append (c : Constraint α) (family : Family) :
    ({ m with constraints := m.constraints ++ [c] } : Store α).indices family =
      if family = c.family then m.indices c.family ++ [⟨c.family, m.constraints.length⟩]
      else m.indices family := by
  rw [indices_eq, numbered_append, List.filter_append, List.map_append, ← indices_eq]
  split
  · next h => simp [h]
  · next h => simp [Ne.symm h]

theorem perm_families :
    (m.families.flatMap fun family => m.numbered.filter (·.1.family = family)).Perm m.numbered := by
  refine perm_flatMap_filter (fun p : ConstraintIndex × Constraint α => p.1.family)
    (nodup_eraseDups _) fun p hp => ?_
  rw [List.mem_eraseDups, ← map_family_numbered]
  exact List.mem_map_of_mem hp

variable {m} in
theorem mem_families_of_mem_numbered {p : ConstraintIndex × Constraint α} (hp : p ∈ m.numbered) :
    p.1.family ∈ m.families := by
  rw [families, List.mem_eraseDups, ← map_family_numbered]
  exact List.mem_map_of_mem hp

variable {m} in
theorem mem_indices_of_mem_numbered {p : ConstraintIndex × Constraint α} (hp : p ∈ m.numbered) :
    p.1 ∈ m.indices p.1.family := by
  rw [indices_eq]
  exact List.mem_map_of_mem (List.mem_filter.mpr ⟨hp, decide_eq_true rfl⟩)

variable {m} in
theorem exists_mem_of_mem_families {family : Family} (h : family ∈ m.families) :
    ∃ p, p ∈ m.numbered.filter (·.1.family = family) := by
  rw [families, List.mem_eraseDups, ← map_family_numbered, List.mem_map] at h
  obtain ⟨p, hp, hfamily⟩ := h
  exact ⟨p, List.mem_filter.mpr ⟨hp, decide_eq_true hfamily⟩⟩

theorem not_forall_family {P : ConstraintIndex × Constraint α → Prop} {family : Family}
    (h : family ∈ m.families)
    (hP : ∀ p ∈ m.numbered.filter (·.1.family = family), ¬P p) :
    ¬∀ p ∈ m.numbered.filter (·.1.family = family), P p := by
  intro hall
  obtain ⟨p, hp⟩ := exists_mem_of_mem_families h
  exact hP p hp (hall p hp)

theorem forall_families_iff {P : ConstraintIndex × Constraint α → Prop} :
    (∀ family ∈ m.families, ∀ p ∈ m.numbered.filter (·.1.family = family), P p) ↔
      ∀ p ∈ m.numbered, P p := by
  simp only [← m.perm_families.mem_iff, List.mem_flatMap]
  exact ⟨fun h p ⟨family, hfamily, hp⟩ => h family hfamily p hp,
    fun h family hfamily p hp => h p ⟨family, hfamily, hp⟩⟩

theorem sum_families (f : ConstraintIndex × Constraint α → ℚ) :
    (m.families.map fun family => ((m.numbered.filter (·.1.family = family)).map f).sum).sum =
      (m.numbered.map f).sum := by
  rw [← (m.perm_families.map f).sum_eq, List.map_flatMap, List.flatMap_def, List.sum_flatten,
    List.map_map]
  rfl

end Store

end DualRecovery
