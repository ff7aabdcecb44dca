/-! Values given to keys, one to a key, in the order in which the keys came. -/

namespace DualRecovery

/-- The oldest key comes first. -/
structure Table (κ β : Type) where
  entries : List (κ × β)
  deriving DecidableEq, Repr

namespace Table

variable {κ β : Type}

def empty : Table κ β := ⟨[]⟩

def keys (t : Table κ β) : List κ := t.entries.map (·.1)

def size (t : Table κ β) : Nat := t.entries.length

variable [DecidableEq κ]

def get? (t : Table κ β) (k : κ) : Option β := t.entries.lookup k

def updateEntries (k : κ) (change : Option β → β) : List (κ × β) → List (κ × β)
  | [] => [(k, change none)]
  | (j, b) :: entries =>
    if j = k then (j, change (some b)) :: entries
    else (j, b) :: updateEntries k change entries

/-- Changes the value of `k` in its place. A new key comes last, with what `change` makes of no
value. -/
def update (t : Table κ β) (k : κ) (change : Option β → β) : Table κ β :=
  ⟨updateEntries k change t.entries⟩

def insert (t : Table κ β) (k : κ) (b : β) : Table κ β := t.update k fun _ => b

theorem lookup_cons_eq_ite (k j : κ) (b : β) (entries : List (κ × β)) :
    ((j, b) :: entries).lookup k = if k = j then some b else entries.lookup k := by
  by_cases h : k = j
  · rw [if_pos h, h, List.lookup_cons_self]
  · have hbeq : (k == j) = false := beq_eq_false_iff_ne.mpr h
    rw [if_neg h, List.lookup_cons, hbeq]

theorem lookup_updateEntries (k k' : κ) (change : Option β → β) (entries : List (κ × β)) :
    (updateEntries k change entries).lookup k' =
      if k' = k then some (change (entries.lookup k)) else entries.lookup k' := by
  induction entries with
  | nil =>
    rw [updateEntries, lookup_cons_eq_ite]
    rfl
  | cons e entries ih =>
    obtain ⟨j, b⟩ := e
    rw [updateEntries]
    by_cases hj : j = k
    · subst hj
      simp only [if_pos, lookup_cons_eq_ite]
      split <;> rfl
    · rw [if_neg hj]
      simp only [lookup_cons_eq_ite, ih, if_neg (Ne.symm hj)]
      by_cases hk : k' = j
      · rw [if_pos hk, if_pos hk, if_neg (hk ▸ hj)]
      · rw [if_neg hk, if_neg hk]

theorem get?_update (t : Table κ β) (k k' : κ) (change : Option β → β) :
    (t.update k change).get? k' = if k' = k then some (change (t.get? k)) else t.get? k' :=
  lookup_updateEntries k k' change t.entries

theorem updateEntries_of_not_mem {k : κ} {entries : List (κ × β)} (h : k ∉ entries.map (·.1))
    (change : Option β → β) : updateEntries k change entries = entries ++ [(k, change none)] := by
  induction entries with
  | nil => rfl
  | cons e entries ih =>
    rw [List.map_cons, List.mem_cons, not_or] at h
    rw [updateEntries, if_neg (Ne.symm h.1), ih h.2, List.cons_append]

theorem map_fst_updateEntries_of_mem {k : κ} {entries : List (κ × β)}
    (h : k ∈ entries.map (·.1)) (change : Option β → β) :
    (updateEntries k change entries).map (·.1) = entries.map (·.1) := by
  induction entries with
  | nil => exact absurd h List.not_mem_nil
  | cons e entries ih =>
    rw [updateEntries]
    split
    · rfl
    · next hne =>
      rw [List.map_cons, List.mem_cons] at h
      rw [List.map_cons, List.map_cons, ih (h.resolve_left (Ne.symm hne))]

theorem entries_insert_of_not_mem {t : Table κ β} {k : κ} (h : k ∉ t.keys) (b : β) :
    (t.insert k b).entries = t.entries ++ [(k, b)] :=
  updateEntries_of_not_mem h _

theorem keys_update (t : Table κ β) (k : κ) (change : Option β → β) :
    (t.update k change).keys = if k ∈ t.keys then t.keys else t.keys ++ [k] := by
  split
  · next h => exact map_fst_updateEntries_of_mem h change
  · next h =>
    rw [keys, update, updateEntries_of_not_mem h, List.map_append]
    rfl

end Table

end DualRecovery
