import DualRecovery.Proofs.ModelFunction.Coefficient
import DualRecovery.Proofs.Store.Validity

/-! The value of a vector affine function is the list of the values of its rows, for exact scalars.
It is there just if the values of all rows are, that is if the values of all variables of its terms
are known. -/

namespace DualRecovery

/-! ### Loops that succeed -/

theorem exists_of_mapM_eq_ok {ε β γ : Type} {f : β → Except ε γ} {xs : List β} {ys : List γ}
    (h : xs.mapM f = .ok ys) : ∀ x ∈ xs, ∃ y, f x = .ok y := by
  induction xs generalizing ys with
  | nil => exact fun _ h => absurd h List.not_mem_nil
  | cons x xs ih =>
    rw [List.mapM_cons] at h
    obtain ⟨y, hy, hrest⟩ := bind_eq_ok.mp h
    obtain ⟨ys', hys, -⟩ := bind_eq_ok.mp hrest
    exact List.forall_mem_cons.mpr ⟨⟨y, hy⟩, ih hys⟩

theorem exists_of_foldlM_eq_ok {ε β κ : Type} {step : β → κ → Except ε β} {ks : List κ} {b c : β}
    (h : ks.foldlM step b = .ok c) : ∀ k ∈ ks, ∃ b' c', step b' k = .ok c' := by
  induction ks generalizing b with
  | nil => exact fun _ h => absurd h List.not_mem_nil
  | cons k ks ih =>
    rw [List.foldlM_cons] at h
    obtain ⟨b', hb', hrest⟩ := bind_eq_ok.mp h
    exact List.forall_mem_cons.mpr ⟨⟨b, b', hb'⟩, ih hrest⟩

theorem map_eq_ok {ε β γ : Type} {g : β → γ} {x : Except ε β} {c : γ} :
    g <$> x = .ok c ↔ ∃ b, x = .ok b ∧ g b = c := by
  cases x <;> simp [Functor.map, Except.map]

/-! ### Values of terms -/

theorem AffineTerm.exists_of_evaluate_eq_ok {α : Type} [Scalar α] {t : AffineTerm α}
    {lookup : Lookup α} {y : α} (h : t.evaluate lookup = .ok y) : ∃ x, lookup t.var = .ok x := by
  obtain ⟨x, hx, -⟩ := bind_eq_ok.mp h
  exact ⟨x, hx⟩

theorem exists_of_addRows_eq_ok {α τ : Type} [Scalar α] {evaluate : τ → Except QueryError α}
    {out out' : List α} {terms : List (RowTerm τ)} (h : addRows evaluate out terms = .ok out') :
    ∀ t ∈ terms, ∃ x, evaluate t.term = .ok x := by
  intro t ht
  obtain ⟨rows, rows', hstep⟩ := exists_of_foldlM_eq_ok h t ht
  split at hstep
  · obtain ⟨x, hx, -⟩ := bind_eq_ok.mp hstep
    have hterm : orError (evaluate t.term) = .ok x := hx
    exact ⟨x, orError_eq_ok.mp hterm⟩
  · cases hstep

/-! ### Values of variables -/

/-- The value of `v`, and zero if it is not known. -/
def Lookup.known (lookup : Lookup ℚ) (v : VariableIndex) : ℚ := (lookup v).toOption.getD 0

theorem Lookup.eq_known {lookup : Lookup ℚ} {v : VariableIndex} (h : ∃ x, lookup v = .ok x) :
    lookup v = .ok (lookup.known v) := by
  obtain ⟨x, hx⟩ := h
  rw [known, hx]
  rfl

/-! ### Scalar functions -/

variable {lookup : Lookup ℚ}

theorem ScalarAffine.evaluate_eq_ok_iff (f : ScalarAffine ℚ) {y : ℚ} :
    f.evaluate lookup = .ok y ↔
      (∀ t ∈ f.terms, ∃ x, lookup t.var = .ok x) ∧ y = f.linear lookup.known + f.constant := by
  have hvalue (h : ∀ t ∈ f.terms, ∃ x, lookup t.var = .ok x) :
      f.evaluate lookup = .ok (f.linear lookup.known + f.constant) :=
    evaluate_eq_linear fun t ht => Lookup.eq_known (h t ht)
  constructor
  · intro h
    obtain ⟨products, hproducts, -⟩ := bind_eq_ok.mp h
    have hall : ∀ t ∈ f.terms, ∃ x, lookup t.var = .ok x := fun t ht =>
      AffineTerm.exists_of_evaluate_eq_ok (exists_of_mapM_eq_ok hproducts t ht).choose_spec
    rw [hvalue hall] at h
    exact ⟨hall, (Except.ok.inj h).symm⟩
  · rintro ⟨hall, rfl⟩
    exact hvalue hall

theorem ModelFunction.evaluate_scalarAffine_iff {f : ScalarAffine ℚ} {value : Value ℚ} :
    (ModelFunction.scalarAffine f).evaluate lookup = .ok value ↔
      (∀ t ∈ f.terms, ∃ x, lookup t.var = .ok x) ∧
        value = .scalar (f.linear lookup.known + f.constant) := by
  rw [evaluate, map_eq_ok]
  simp only [orError_eq_ok, f.evaluate_eq_ok_iff]
  constructor
  · rintro ⟨_, ⟨hall, rfl⟩, rfl⟩
    exact ⟨hall, rfl⟩
  · rintro ⟨hall, rfl⟩
    exact ⟨_, ⟨hall, rfl⟩, rfl⟩

/-! ### Vector functions -/

namespace VectorAffine

variable {f : VectorAffine ℚ}

/-- The rows have all the terms. -/
theorem forall_rows_iff (hrow : ∀ t ∈ f.terms, t.row < f.constants.length)
    {P : AffineTerm ℚ → Prop} :
    (∀ k < f.constants.length, ∀ t ∈ (f.row k).terms, P t) ↔ ∀ t ∈ f.terms, P t.term := by
  constructor
  · intro h t ht
    refine h t.row (hrow t ht) t.term (List.mem_map_of_mem (List.mem_filter.mpr ⟨ht, ?_⟩))
    exact decide_eq_true rfl
  · intro h k _ t ht
    obtain ⟨t', ht', rfl⟩ := VectorAffine.exists_of_mem_row ht
    exact h t' ht'

theorem evaluate_eq_ok_iff (hrow : ∀ t ∈ f.terms, t.row < f.constants.length) {ys : List ℚ} :
    f.evaluate lookup = .ok ys ↔
      (∀ t ∈ f.terms, ∃ x, lookup t.term.var = .ok x) ∧
        ys = (List.range f.constants.length).map fun k =>
          (f.row k).linear lookup.known + (f.row k).constant := by
  have hvalue (h : ∀ t ∈ f.terms, ∃ x, lookup t.term.var = .ok x) :
      f.evaluate lookup = .ok ((List.range f.constants.length).map fun k =>
        (f.row k).linear lookup.known + (f.row k).constant) :=
    evaluate_eq_linear hrow fun t ht => Lookup.eq_known (h t ht)
  constructor
  · intro h
    have hall : ∀ t ∈ f.terms, ∃ x, lookup t.term.var = .ok x := fun t ht =>
      AffineTerm.exists_of_evaluate_eq_ok (exists_of_addRows_eq_ok h t ht).choose_spec
    rw [hvalue hall] at h
    exact ⟨hall, (Except.ok.inj h).symm⟩
  · rintro ⟨hall, rfl⟩
    exact hvalue hall

end VectorAffine

theorem ModelFunction.evaluate_vectorAffine_iff {f : VectorAffine ℚ}
    (hrow : ∀ t ∈ f.terms, t.row < f.constants.length) {value : Value ℚ} :
    (ModelFunction.vectorAffine f).evaluate lookup = .ok value ↔
      (∀ t ∈ f.terms, ∃ x, lookup t.term.var = .ok x) ∧
        value = .vector ((List.range f.constants.length).map fun k =>
          (f.row k).linear lookup.known + (f.row k).constant) := by
  rw [evaluate, map_eq_ok]
  simp only [VectorAffine.evaluate_eq_ok_iff hrow]
  constructor
  · rintro ⟨_, ⟨hall, rfl⟩, rfl⟩
    exact ⟨hall, rfl⟩
  · rintro ⟨hall, rfl⟩
    exact ⟨_, ⟨hall, rfl⟩, rfl⟩

end DualRecovery
