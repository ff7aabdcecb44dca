import DualRecovery.ModelFunction.Basic

/-! The variables of a function: a function mentions those that stand somewhere in it, and the list
of its variables has each of them once. -/

namespace DualRecovery

theorem nodup_eraseDups {κ : Type} [DecidableEq κ] : ∀ keys : List κ, keys.eraseDups.Nodup
  | [] => List.nodup_nil
  | key :: keys => by
    rw [List.eraseDups_cons, List.nodup_cons]
    refine ⟨fun h => ?_, nodup_eraseDups _⟩
    have := (List.mem_filter.mp (List.mem_eraseDups.mp h)).2
    simp at this
termination_by keys => keys.length
decreasing_by exact Nat.lt_succ_of_le (List.length_filter_le _ _)

namespace ModelFunction

variable {α : Type}

@[simp] theorem mem_distinctVariables (f : ModelFunction α) (v : VariableIndex) :
    v ∈ f.distinctVariables ↔ v ∈ f.occurrences :=
  List.mem_eraseDups

theorem nodup_distinctVariables (f : ModelFunction α) : f.distinctVariables.Nodup :=
  nodup_eraseDups _

theorem mentions_iff_mem_occurrences (f : ModelFunction α) (v : VariableIndex) :
    f.mentions v = true ↔ v ∈ f.occurrences := by
  cases f with
  | singleVariable w => simpa [mentions, occurrences] using eq_comm
  | vectorOfVariables vs => simp [mentions, occurrences]
  | scalarAffine f | vectorAffine f => simp [mentions, occurrences, AffineTerm.mentions]
  | scalarQuadratic f | vectorQuadratic f =>
    simp only [mentions, occurrences, AffineTerm.mentions, QuadraticTerm.mentions]
    grind

end ModelFunction

/-! ### Terms -/

section Terms

variable {α : Type}

theorem ScalarAffine.var_mem_occurrences {f : ScalarAffine α} {t : AffineTerm α}
    (ht : t ∈ f.terms) : t.var ∈ (ModelFunction.scalarAffine f).occurrences :=
  List.mem_map_of_mem ht

theorem VectorAffine.var_mem_occurrences {f : VectorAffine α} {t : RowTerm (AffineTerm α)}
    (ht : t ∈ f.terms) : t.term.var ∈ (ModelFunction.vectorAffine f).occurrences :=
  List.mem_map_of_mem (f := fun t : RowTerm (AffineTerm α) => t.term.var) ht

theorem ScalarQuadratic.var_mem_occurrences {f : ScalarQuadratic α} {t : AffineTerm α}
    (ht : t ∈ f.affine) : t.var ∈ (ModelFunction.scalarQuadratic f).occurrences :=
  List.mem_append_right _ (List.mem_map_of_mem ht)

theorem ScalarQuadratic.pair_mem_occurrences {f : ScalarQuadratic α} {t : QuadraticTerm α}
    (ht : t ∈ f.quadratic) :
    t.first ∈ (ModelFunction.scalarQuadratic f).occurrences ∧
      t.second ∈ (ModelFunction.scalarQuadratic f).occurrences :=
  ⟨List.mem_append_left _ (List.mem_flatMap.mpr ⟨t, ht, by simp⟩),
    List.mem_append_left _ (List.mem_flatMap.mpr ⟨t, ht, by simp⟩)⟩

theorem VectorQuadratic.var_mem_occurrences {f : VectorQuadratic α} {t : RowTerm (AffineTerm α)}
    (ht : t ∈ f.affine) : t.term.var ∈ (ModelFunction.vectorQuadratic f).occurrences :=
  List.mem_append_right _
    (List.mem_map_of_mem (f := fun t : RowTerm (AffineTerm α) => t.term.var) ht)

theorem VectorQuadratic.pair_mem_occurrences {f : VectorQuadratic α}
    {t : RowTerm (QuadraticTerm α)} (ht : t ∈ f.quadratic) :
    t.term.first ∈ (ModelFunction.vectorQuadratic f).occurrences ∧
      t.term.second ∈ (ModelFunction.vectorQuadratic f).occurrences :=
  ⟨List.mem_append_left _ (List.mem_flatMap.mpr ⟨t, ht, by simp⟩),
    List.mem_append_left _ (List.mem_flatMap.mpr ⟨t, ht, by simp⟩)⟩

end Terms

end DualRecovery
