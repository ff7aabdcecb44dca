/-! Values given to finitely many keys, one to a key. -/

namespace DualRecovery

/-- The latest key comes first. -/
structure Assignment (κ β : Type) where
  entries : List (κ × β)
  deriving DecidableEq, Repr

namespace Assignment

variable {κ β : Type} [DecidableEq κ]

def empty : Assignment κ β := ⟨[]⟩

def get? (a : Assignment κ β) (k : κ) : Option β := a.entries.lookup k

/-- Gives `b` to `k`, in place of what it had. -/
def set (a : Assignment κ β) (k : κ) (b : β) : Assignment κ β :=
  ⟨(k, b) :: a.entries.filter fun e => e.1 ≠ k⟩

/-- Gives values to keys pair by pair, from the left. -/
def setAll (a : Assignment κ β) (pairs : List (κ × β)) : Assignment κ β :=
  pairs.foldl (fun a p => a.set p.1 p.2) a

@[simp] theorem get?_empty (k : κ) : (empty : Assignment κ β).get? k = none := rfl

@[simp] theorem get?_set_self (a : Assignment κ β) (k : κ) (b : β) :
    (a.set k b).get? k = some b := by
  simp [get?, set]

theorem lookup_filter_ne {k k' : κ} (h : k' ≠ k) (entries : List (κ × β)) :
    (entries.filter fun e => e.1 ≠ k).lookup k' = entries.lookup k' := by
  induction entries with
  | nil => rfl
  | cons e es ih =>
    obtain ⟨j, b⟩ := e
    by_cases hj : j = k
    · subst hj
      rw [List.lookup_cons, beq_eq_false_iff_ne.mpr h]
      simpa using ih
    · simp only [List.filter_cons, ne_eq, hj, not_false_eq_true, decide_true, if_true,
        List.lookup_cons]
      rw [← ih]

theorem get?_set_ne (a : Assignment κ β) {k k' : κ} (h : k' ≠ k) (b : β) :
    (a.set k b).get? k' = a.get? k' := by
  have hk : (k' == k) = false := by simp [h]
  rw [get?, set, List.lookup_cons, hk]
  exact lookup_filter_ne h a.entries

theorem get?_set (a : Assignment κ β) (k k' : κ) (b : β) :
    (a.set k b).get? k' = if k' = k then some b else a.get? k' := by
  split
  · next h => rw [h, get?_set_self]
  · next h => exact get?_set_ne a h b

end Assignment

end DualRecovery
