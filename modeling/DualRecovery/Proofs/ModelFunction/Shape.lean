import DualRecovery.ModelFunction.Coefficient
import DualRecovery.ModelFunction.Evaluate
import DualRecovery.Proofs.ModelFunction.Occurrences
import DualRecovery.Proofs.Store.Validity

/-! Functions that have all the rows of their terms, over any scalars: their columns and values have
the shapes of their constants, and an evaluation fails only where a lookup does. -/

namespace DualRecovery

variable {α : Type}

theorem mapM_eq_error {ε β γ : Type} {f : β → Except ε γ} {xs : List β} {e : ε}
    (h : xs.mapM f = .error e) : ∃ x ∈ xs, f x = .error e := by
  induction xs with
  | nil => cases h
  | cons x xs ih =>
    rw [List.mapM_cons] at h
    rcases bind_eq_error.mp h with hx | ⟨b, -, hrest⟩
    · exact ⟨x, List.mem_cons_self, hx⟩
    · rcases bind_eq_error.mp hrest with hxs | ⟨bs, -, hpure⟩
      · obtain ⟨x', hx', he⟩ := ih hxs
        exact ⟨x', List.mem_cons_of_mem x hx', he⟩
      · cases hpure

theorem length_of_mapM_eq_ok {ε β γ : Type} {f : β → Except ε γ} {xs : List β} {ys : List γ}
    (h : xs.mapM f = .ok ys) : ys.length = xs.length := by
  induction xs generalizing ys with
  | nil =>
    obtain rfl : [] = ys := Except.ok.inj h
    rfl
  | cons x xs ih =>
    rw [List.mapM_cons] at h
    obtain ⟨b, -, hrest⟩ := bind_eq_ok.mp h
    obtain ⟨bs, hbs, hpure⟩ := bind_eq_ok.mp hrest
    obtain rfl : b :: bs = ys := Except.ok.inj hpure
    exact congrArg Nat.succ (ih hbs)

/-- A loop succeeds if its steps do from every state that they can leave. -/
theorem exists_foldlM {ε β κ : Type} (P : β → Prop) {step : β → κ → Except ε β} {ks : List κ}
    (hstep : ∀ b, P b → ∀ k ∈ ks, ∃ b', step b k = .ok b' ∧ P b') {b : β} (hb : P b) :
    ∃ b', ks.foldlM step b = .ok b' ∧ P b' := by
  induction ks generalizing b with
  | nil => exact ⟨b, rfl, hb⟩
  | cons k ks ih =>
    obtain ⟨b', hb', hP⟩ := hstep b hb k List.mem_cons_self
    rw [List.foldlM_cons, hb']
    exact ih (fun b hb k' hk' => hstep b hb k' (List.mem_cons_of_mem k hk')) hP

theorem foldlM_congr_mem {M : Type → Type} [Monad M] {β κ : Type} {step step' : β → κ → M β}
    {ks : List κ} (hstep : ∀ b, ∀ k ∈ ks, step b k = step' b k) (b : β) :
    ks.foldlM step b = ks.foldlM step' b := by
  induction ks generalizing b with
  | nil => rfl
  | cons k ks ih =>
    rw [List.foldlM_cons, List.foldlM_cons, hstep b k List.mem_cons_self]
    refine congrArg _ (funext fun b' => ih (fun b k' hk' => hstep b k' ?_) b')
    exact List.mem_cons_of_mem k hk'

theorem mapM_congr_mem {ε β γ : Type} {f g : β → Except ε γ} {xs : List β}
    (h : ∀ x ∈ xs, f x = g x) : xs.mapM f = xs.mapM g := by
  induction xs with
  | nil => rfl
  | cons x xs ih =>
    rw [List.forall_mem_cons] at h
    rw [List.mapM_cons, List.mapM_cons, h.1, ih h.2]

namespace Value

/-- Two numbers, or two vectors of equal lengths. -/
def SameShape (x y : Value α) : Prop := x.isScalar = y.isScalar ∧ x.length = y.length

theorem exists_subtract [Scalar α] {x y : Value α} (h : x.SameShape y) :
    ∃ d, x.subtract y = .ok d := by
  obtain ⟨hscalar, hlength⟩ := h
  cases x with
  | scalar a =>
    cases y with
    | scalar b => exact ⟨_, rfl⟩
    | vector b => cases hscalar
  | vector a =>
    cases y with
    | scalar b => cases hscalar
    | vector b =>
      have hcombine : combine (-1) b 1 a = .ok _ := ofSameLength_of_eq hlength _
      exact ⟨.vector _, congrArg (Functor.map vector) hcombine⟩

end Value

variable [Scalar α]

/-! ### Columns -/

theorem VectorAffine.exists_coefficient {f : VectorAffine α}
    (hrow : ∀ t ∈ f.terms, t.row < f.constants.length) (v : VariableIndex) :
    ∃ column, f.coefficient v = .ok column ∧ column.length = f.constants.length := by
  refine exists_foldlM (fun column : List α => column.length = f.constants.length) ?_ ?_
  · intro column hcolumn t ht
    have hlt : t.row < column.length := hcolumn ▸ hrow t (List.mem_filter.mp ht).1
    exact ⟨_, addAt_of_lt hlt _, (List.length_modify ..).trans hcolumn⟩
  · exact List.length_replicate

/-! ### Values -/

theorem AffineTerm.evaluate_eq_error {t : AffineTerm α} {lookup : Lookup α} {e : QueryError}
    (h : t.evaluate lookup = .error e) : lookup t.var = .error e := by
  rcases bind_eq_error.mp h with hvar | ⟨x, -, hpure⟩
  · exact hvar
  · cases hpure

theorem QuadraticTerm.evaluate_eq_error {t : QuadraticTerm α} {lookup : Lookup α} {e : QueryError}
    (h : t.evaluate lookup = .error e) :
    lookup t.first = .error e ∨ lookup t.second = .error e := by
  rcases bind_eq_error.mp h with hfirst | ⟨x, -, hrest⟩
  · exact Or.inl hfirst
  · split at hrest
    · cases hrest
    · rcases bind_eq_error.mp hrest with hsecond | ⟨y, -, hpure⟩
      · exact Or.inr hsecond
      · cases hpure

/-- Terms in rows that there are leave the number of rows as it is, and fail only where a term
does. -/
theorem addRows_cases {τ : Type} (evaluate : τ → Except QueryError α) (out : List α)
    {terms : List (RowTerm τ)} (hrow : ∀ t ∈ terms, t.row < out.length) :
    (∃ out', addRows evaluate out terms = .ok out' ∧ out'.length = out.length) ∨
      ∃ e, addRows evaluate out terms = .error (.error e) ∧
        ∃ t ∈ terms, evaluate t.term = .error e := by
  induction terms generalizing out with
  | nil => exact Or.inl ⟨out, rfl, rfl⟩
  | cons t terms ih =>
    rw [List.forall_mem_cons] at hrow
    unfold addRows at ih ⊢
    rw [List.foldlM_cons, if_pos hrow.1]
    cases ht : evaluate t.term with
    | error e => exact Or.inr ⟨e, rfl, t, List.mem_cons_self, ht⟩
    | ok x =>
      have hlength : (out.modify t.row (· + x)).length = out.length := List.length_modify ..
      rcases ih (out.modify t.row (· + x)) (by rw [hlength]; exact hrow.2) with
        ⟨out', hout', hlength'⟩ | ⟨e, he, t', ht', hterm⟩
      · exact Or.inl ⟨out', hout', hlength'.trans hlength⟩
      · exact Or.inr ⟨e, he, t', List.mem_cons_of_mem t ht', hterm⟩

theorem ScalarAffine.evaluate_eq_error {f : ScalarAffine α} {lookup : Lookup α} {e : QueryError}
    (h : f.evaluate lookup = .error e) :
    ∃ v ∈ (ModelFunction.scalarAffine f).occurrences, lookup v = .error e := by
  rcases bind_eq_error.mp h with hterms | ⟨products, -, hpure⟩
  · obtain ⟨t, ht, he⟩ := mapM_eq_error hterms
    exact ⟨t.var, var_mem_occurrences ht, AffineTerm.evaluate_eq_error he⟩
  · cases hpure

theorem ScalarQuadratic.evaluate_eq_error {f : ScalarQuadratic α} {lookup : Lookup α}
    {e : QueryError} (h : f.evaluate lookup = .error e) :
    ∃ v ∈ (ModelFunction.scalarQuadratic f).occurrences, lookup v = .error e := by
  rcases bind_eq_error.mp h with haffine | ⟨affine, -, hrest⟩
  · obtain ⟨t, ht, he⟩ := mapM_eq_error haffine
    exact ⟨t.var, var_mem_occurrences ht, AffineTerm.evaluate_eq_error he⟩
  · rcases bind_eq_error.mp hrest with hquadratic | ⟨quadratic, -, hpure⟩
    · obtain ⟨t, ht, he⟩ := mapM_eq_error hquadratic
      rcases QuadraticTerm.evaluate_eq_error he with hfirst | hsecond
      · exact ⟨t.first, (pair_mem_occurrences ht).1, hfirst⟩
      · exact ⟨t.second, (pair_mem_occurrences ht).2, hsecond⟩
    · cases hpure

theorem VectorAffine.evaluate_cases (f : VectorAffine α)
    (hrow : ∀ t ∈ f.terms, t.row < f.constants.length) (lookup : Lookup α) :
    (∃ xs, f.evaluate lookup = .ok xs ∧ xs.length = f.constants.length) ∨
      ∃ e, f.evaluate lookup = .error (.error e) ∧
        ∃ v ∈ (ModelFunction.vectorAffine f).occurrences, lookup v = .error e := by
  rcases addRows_cases (·.evaluate lookup) f.constants hrow with h | ⟨e, he, t, ht, hterm⟩
  · exact Or.inl h
  · exact Or.inr ⟨e, he, t.term.var, var_mem_occurrences ht, AffineTerm.evaluate_eq_error hterm⟩

theorem VectorQuadratic.evaluate_cases (f : VectorQuadratic α)
    (hquadratic : ∀ t ∈ f.quadratic, t.row < f.constants.length)
    (haffine : ∀ t ∈ f.affine, t.row < f.constants.length) (lookup : Lookup α) :
    (∃ xs, f.evaluate lookup = .ok xs ∧ xs.length = f.constants.length) ∨
      ∃ e, f.evaluate lookup = .error (.error e) ∧
        ∃ v ∈ (ModelFunction.vectorQuadratic f).occurrences, lookup v = .error e := by
  unfold VectorQuadratic.evaluate
  rcases addRows_cases (·.evaluate lookup) f.constants haffine with
    ⟨out, hout, hlength⟩ | ⟨e, he, t, ht, hterm⟩
  · rw [hout]
    rcases addRows_cases (·.evaluate lookup) out (hlength ▸ hquadratic) with
      ⟨xs, hxs, hlength'⟩ | ⟨e, he, t, ht, hterm⟩
    · exact Or.inl ⟨xs, hxs, hlength'.trans hlength⟩
    · refine Or.inr ⟨e, he, ?_⟩
      rcases QuadraticTerm.evaluate_eq_error hterm with hfirst | hsecond
      · exact ⟨t.term.first, (pair_mem_occurrences ht).1, hfirst⟩
      · exact ⟨t.term.second, (pair_mem_occurrences ht).2, hsecond⟩
  · rw [he]
    exact Or.inr ⟨e, rfl, t.term.var, var_mem_occurrences ht, AffineTerm.evaluate_eq_error hterm⟩

/-- A function that has the rows of its terms has a value of the shape of its constant, unless one
of its variables has none. -/
theorem ModelFunction.evaluate_cases (f : ModelFunction α)
    (hrow : ∀ row ∈ f.rows, row < f.dimension) (lookup : Lookup α) :
    (∃ x, f.evaluate lookup = .ok x ∧ x.SameShape f.constant) ∨
      ∃ e, f.evaluate lookup = .error (.error e) ∧ ∃ v ∈ f.occurrences, lookup v = .error e := by
  cases f with
  | singleVariable v =>
    cases hv : lookup v with
    | ok x => exact Or.inl ⟨.scalar x, by rw [evaluate, hv]; rfl, rfl, rfl⟩
    | error e => exact Or.inr ⟨e, by rw [evaluate, hv]; rfl, v, List.mem_singleton_self v, hv⟩
  | vectorOfVariables vs =>
    cases hvs : vs.mapM lookup with
    | ok xs =>
      have hlength := length_of_mapM_eq_ok hvs
      exact Or.inl ⟨.vector xs, by rw [evaluate, hvs]; rfl, rfl, by simp [constant, hlength]⟩
    | error e => exact Or.inr ⟨e, by rw [evaluate, hvs]; rfl, mapM_eq_error hvs⟩
  | scalarAffine f =>
    cases hf : f.evaluate lookup with
    | ok x => exact Or.inl ⟨.scalar x, by rw [evaluate, hf]; rfl, rfl, rfl⟩
    | error e => exact Or.inr ⟨e, by rw [evaluate, hf]; rfl, ScalarAffine.evaluate_eq_error hf⟩
  | scalarQuadratic f =>
    cases hf : f.evaluate lookup with
    | ok x => exact Or.inl ⟨.scalar x, by rw [evaluate, hf]; rfl, rfl, rfl⟩
    | error e => exact Or.inr ⟨e, by rw [evaluate, hf]; rfl, ScalarQuadratic.evaluate_eq_error hf⟩
  | vectorAffine f =>
    rcases f.evaluate_cases (fun t ht => hrow _ (List.mem_map_of_mem ht)) lookup with
      ⟨xs, hxs, hlength⟩ | ⟨e, he, hv⟩
    · exact Or.inl ⟨.vector xs, by rw [evaluate, hxs]; rfl, rfl, hlength⟩
    · exact Or.inr ⟨e, by rw [evaluate, he]; rfl, hv⟩
  | vectorQuadratic f =>
    rcases f.evaluate_cases
        (fun t ht => hrow _ (List.mem_append_left _ (List.mem_map_of_mem ht)))
        (fun t ht => hrow _ (List.mem_append_right _ (List.mem_map_of_mem ht))) lookup with
      ⟨xs, hxs, hlength⟩ | ⟨e, he, hv⟩
    · exact Or.inl ⟨.vector xs, by rw [evaluate, hxs]; rfl, rfl, hlength⟩
    · exact Or.inr ⟨e, by rw [evaluate, he]; rfl, hv⟩

end DualRecovery
