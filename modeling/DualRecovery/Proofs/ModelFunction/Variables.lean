import DualRecovery.Proofs.ModelFunction.Rows
import DualRecovery.Proofs.ModelFunction.Shape

/-! The variables of a function are the same for those who list them, who ask for one of them and
who evaluate the function: a function has a value just if all the variables that it lists have one,
and its value comes from theirs alone. -/

namespace DualRecovery

/-! ### First places -/

section FirstPlaces

variable {κ : Type} [DecidableEq κ]

theorem idxOf_lt_of_filter {p : κ → Bool} {keys : List κ} {x y : κ} (hx : p x = true)
    (hy : p y = true) (h : (keys.filter p).idxOf x < (keys.filter p).idxOf y) :
    keys.idxOf x < keys.idxOf y := by
  induction keys with
  | nil => exact h
  | cons key keys ih =>
    by_cases hkey : p key = true
    · rw [List.filter_cons_of_pos hkey] at h
      simp only [List.idxOf_cons] at h ⊢
      grind
    · have hxkey : key ≠ x := fun heq => hkey (heq ▸ hx)
      have hykey : key ≠ y := fun heq => hkey (heq ▸ hy)
      rw [List.filter_cons_of_neg hkey] at h
      rw [List.idxOf_cons_ne _ hxkey, List.idxOf_cons_ne _ hykey]
      exact Nat.succ_lt_succ (ih h)

/-- Without repetitions, keys stay in the order of their first places. -/
theorem pairwise_eraseDups :
    ∀ keys : List κ, keys.eraseDups.Pairwise fun x y => keys.idxOf x < keys.idxOf y
  | [] => List.Pairwise.nil
  | key :: keys => by
    have hne {x : κ} (hx : x ∈ (keys.filter fun x => !x == key).eraseDups) : key ≠ x := by
      have hkept := (List.mem_filter.mp (List.mem_eraseDups.mp hx)).2
      rintro rfl
      simp at hkept
    rw [List.eraseDups_cons, List.pairwise_cons]
    constructor
    · intro y hy
      rw [List.idxOf_cons_self, List.idxOf_cons_ne _ (hne hy)]
      exact Nat.succ_pos _
    · refine (pairwise_eraseDups _).imp_of_mem fun {x y} hx hy h => ?_
      rw [List.idxOf_cons_ne _ (hne hx), List.idxOf_cons_ne _ (hne hy)]
      refine Nat.succ_lt_succ (idxOf_lt_of_filter ?_ ?_ h)
      · simpa using (hne hx).symm
      · simpa using (hne hy).symm
termination_by keys => keys.length
decreasing_by exact Nat.lt_succ_of_le (List.length_filter_le _ _)

theorem exists_before_of_idxOf_lt {keys : List κ} {x y : κ} (h : keys.idxOf x < keys.idxOf y) :
    ∃ k : ℕ, keys[k]? = some x ∧ ∀ j ≤ k, keys[j]? ≠ some y := by
  have hx : x ∈ keys := List.idxOf_lt_length_iff.mp (h.trans_le List.idxOf_le_length)
  refine ⟨keys.idxOf x, List.getElem?_idxOf hx, fun j hj hy => ?_⟩
  obtain ⟨hlt, rfl⟩ := List.getElem?_eq_some_iff.mp hy
  have hne : (keys[j] == keys[j]) = false :=
    List.not_of_lt_findIdx (p := (· == keys[j])) (hj.trans_lt h)
  simp at hne

end FirstPlaces

/-! ### Places -/

variable {α : Type}

/-- The variable that comes first in the term for even `k`, and the other one for odd `k`. -/
def QuadraticTerm.side (t : QuadraticTerm α) (k : ℕ) : VariableIndex :=
  if k % 2 = 0 then t.first else t.second

namespace ModelFunction

/-- The variable at place `k`. A quadratic term takes two places, and the affine terms come after
all quadratic ones. -/
def place? : ModelFunction α → ℕ → Option VariableIndex
  | singleVariable v, k => [v][k]?
  | vectorOfVariables vs, k => vs[k]?
  | scalarAffine f, k => f.terms[k]?.map (·.var)
  | vectorAffine f, k => f.terms[k]?.map (·.term.var)
  | scalarQuadratic f, k =>
    if k < 2 * f.quadratic.length then f.quadratic[k / 2]?.map (·.side k)
    else f.affine[k - 2 * f.quadratic.length]?.map (·.var)
  | vectorQuadratic f, k =>
    if k < 2 * f.quadratic.length then f.quadratic[k / 2]?.map (·.term.side k)
    else f.affine[k - 2 * f.quadratic.length]?.map (·.term.var)

/-- There is a place of `v` with no place of `w` before it, nor is it one itself. -/
def FirstBefore (f : ModelFunction α) (v w : VariableIndex) : Prop :=
  ∃ k, f.place? k = some v ∧ ∀ j ≤ k, f.place? j ≠ some w

end ModelFunction

theorem getElem?_flatMap_pair {τ : Type} (first second : τ → VariableIndex) (ts : List τ) (k : ℕ) :
    (ts.flatMap fun t => [first t, second t])[k]? =
      ts[k / 2]?.map fun t => if k % 2 = 0 then first t else second t := by
  induction ts generalizing k with
  | nil => simp
  | cons t ts ih =>
    rw [List.flatMap_cons, List.cons_append, List.cons_append, List.nil_append]
    match k with
    | 0 => rfl
    | 1 => rfl
    | k + 2 =>
      rw [List.getElem?_cons_succ, List.getElem?_cons_succ, ih, Nat.add_div_right _ two_pos,
        List.getElem?_cons_succ, Nat.add_mod_right]

theorem length_flatMap_pair {τ : Type} (first second : τ → VariableIndex) (ts : List τ) :
    (ts.flatMap fun t => [first t, second t]).length = 2 * ts.length := by
  simp [List.length_flatMap, Nat.mul_comm]

namespace ModelFunction

theorem getElem?_occurrences (f : ModelFunction α) (k : ℕ) : f.occurrences[k]? = f.place? k := by
  cases f with
  | singleVariable v | vectorOfVariables vs => rfl
  | scalarAffine f | vectorAffine f => exact List.getElem?_map
  | scalarQuadratic f | vectorQuadratic f =>
    simp only [occurrences, place?, List.getElem?_append, length_flatMap_pair,
      getElem?_flatMap_pair, List.getElem?_map]
    rfl

theorem mem_occurrences_iff_place {f : ModelFunction α} {v : VariableIndex} :
    v ∈ f.occurrences ↔ ∃ k, f.place? k = some v := by
  simp only [List.mem_iff_getElem?, getElem?_occurrences]

theorem pairwise_distinctVariables (f : ModelFunction α) :
    f.distinctVariables.Pairwise f.FirstBefore := by
  refine (pairwise_eraseDups f.occurrences).imp fun h => ?_
  simpa only [FirstBefore, getElem?_occurrences] using exists_before_of_idxOf_lt h

/-- Of two variables at most one comes first. -/
theorem FirstBefore.asymm {f : ModelFunction α} {v w : VariableIndex} (h : f.FirstBefore v w) :
    ¬ f.FirstBefore w v := by
  obtain ⟨k, hv, hw⟩ := h
  rintro ⟨k', hw', hv'⟩
  rcases Nat.le_total k k' with hle | hle
  · exact hv' k hle hv
  · exact hw k' hle hw'

end ModelFunction

/-! ### Values that come from the variables -/

variable [Scalar α] {lookup lookup' : Lookup α}

theorem AffineTerm.evaluate_congr {t : AffineTerm α} (h : lookup t.var = lookup' t.var) :
    t.evaluate lookup = t.evaluate lookup' := by
  unfold evaluate
  rw [h]

theorem QuadraticTerm.evaluate_congr {t : QuadraticTerm α}
    (hfirst : lookup t.first = lookup' t.first) (hsecond : lookup t.second = lookup' t.second) :
    t.evaluate lookup = t.evaluate lookup' := by
  unfold evaluate
  rw [hfirst, hsecond]

theorem addRows_congr {τ : Type} {evaluate evaluate' : τ → Except QueryError α}
    {terms : List (RowTerm τ)} (h : ∀ t ∈ terms, evaluate t.term = evaluate' t.term)
    (out : List α) : addRows evaluate out terms = addRows evaluate' out terms :=
  foldlM_congr_mem (fun out t ht => by rw [h t ht]) out

theorem ScalarAffine.evaluate_congr {f : ScalarAffine α}
    (h : ∀ v ∈ (ModelFunction.scalarAffine f).occurrences, lookup v = lookup' v) :
    f.evaluate lookup = f.evaluate lookup' := by
  unfold evaluate
  rw [mapM_congr_mem fun t ht => AffineTerm.evaluate_congr (h _ (var_mem_occurrences ht))]

theorem ScalarQuadratic.evaluate_congr {f : ScalarQuadratic α}
    (h : ∀ v ∈ (ModelFunction.scalarQuadratic f).occurrences, lookup v = lookup' v) :
    f.evaluate lookup = f.evaluate lookup' := by
  have haffine : f.affine.mapM (·.evaluate lookup) = f.affine.mapM (·.evaluate lookup') :=
    mapM_congr_mem fun t ht => AffineTerm.evaluate_congr (h _ (var_mem_occurrences ht))
  have hquadratic :
      f.quadratic.mapM (·.evaluate lookup) = f.quadratic.mapM (·.evaluate lookup') :=
    mapM_congr_mem fun t ht => QuadraticTerm.evaluate_congr (h _ (pair_mem_occurrences ht).1)
      (h _ (pair_mem_occurrences ht).2)
  unfold evaluate
  rw [haffine, hquadratic]

theorem VectorAffine.evaluate_congr {f : VectorAffine α}
    (h : ∀ v ∈ (ModelFunction.vectorAffine f).occurrences, lookup v = lookup' v) :
    f.evaluate lookup = f.evaluate lookup' := by
  have hterms : ∀ t ∈ f.terms, t.term.evaluate lookup = t.term.evaluate lookup' :=
    fun t ht => AffineTerm.evaluate_congr (h _ (var_mem_occurrences ht))
  exact addRows_congr hterms f.constants

theorem VectorQuadratic.evaluate_congr {f : VectorQuadratic α}
    (h : ∀ v ∈ (ModelFunction.vectorQuadratic f).occurrences, lookup v = lookup' v) :
    f.evaluate lookup = f.evaluate lookup' := by
  have haffine : ∀ t ∈ f.affine, t.term.evaluate lookup = t.term.evaluate lookup' :=
    fun t ht => AffineTerm.evaluate_congr (h _ (var_mem_occurrences ht))
  have hquadratic : ∀ t ∈ f.quadratic, t.term.evaluate lookup = t.term.evaluate lookup' :=
    fun t ht => QuadraticTerm.evaluate_congr (h _ (pair_mem_occurrences ht).1)
      (h _ (pair_mem_occurrences ht).2)
  have hout : addRows (·.evaluate lookup) f.constants f.affine =
      addRows (·.evaluate lookup') f.constants f.affine := addRows_congr haffine f.constants
  unfold evaluate
  rw [hout]
  exact congrArg _ (funext (addRows_congr hquadratic))

theorem ModelFunction.evaluate_congr (f : ModelFunction α)
    (h : ∀ v ∈ f.occurrences, lookup v = lookup' v) : f.evaluate lookup = f.evaluate lookup' := by
  cases f with
  | singleVariable v => rw [evaluate, evaluate, h v (List.mem_singleton_self v)]
  | vectorOfVariables vs =>
    have hvs : vs.mapM lookup = vs.mapM lookup' := mapM_congr_mem h
    rw [evaluate, evaluate, hvs]
  | scalarAffine f => rw [evaluate, evaluate, ScalarAffine.evaluate_congr h]
  | vectorAffine f => rw [evaluate, evaluate, VectorAffine.evaluate_congr h]
  | scalarQuadratic f => rw [evaluate, evaluate, ScalarQuadratic.evaluate_congr h]
  | vectorQuadratic f => rw [evaluate, evaluate, VectorQuadratic.evaluate_congr h]

/-! ### Values that need the variables -/

theorem QuadraticTerm.exists_of_evaluate_eq_ok {t : QuadraticTerm α} {y : α}
    (h : t.evaluate lookup = .ok y) :
    (∃ x, lookup t.first = .ok x) ∧ ∃ x, lookup t.second = .ok x := by
  obtain ⟨x, hfirst, hrest⟩ := bind_eq_ok.mp h
  split at hrest
  · next hsame => exact ⟨⟨x, hfirst⟩, x, hsame ▸ hfirst⟩
  · obtain ⟨x', hsecond, -⟩ := bind_eq_ok.mp hrest
    exact ⟨⟨x, hfirst⟩, x', hsecond⟩

theorem exists_of_affine {τ : Type} {term : τ → AffineTerm α} {ts : List τ}
    (h : ∀ t ∈ ts, ∃ y, (term t).evaluate lookup = .ok y) :
    ∀ v ∈ ts.map fun t => (term t).var, ∃ x, lookup v = .ok x := by
  intro v hv
  obtain ⟨t, ht, rfl⟩ := List.mem_map.mp hv
  obtain ⟨y, hy⟩ := h t ht
  exact AffineTerm.exists_of_evaluate_eq_ok hy

theorem exists_of_quadratic {τ : Type} {term : τ → QuadraticTerm α} {ts : List τ}
    (h : ∀ t ∈ ts, ∃ y, (term t).evaluate lookup = .ok y) :
    ∀ v ∈ ts.flatMap fun t => [(term t).first, (term t).second], ∃ x, lookup v = .ok x := by
  intro v hv
  obtain ⟨t, ht, hside⟩ := List.mem_flatMap.mp hv
  obtain ⟨y, hy⟩ := h t ht
  obtain ⟨hfirst, hsecond⟩ := QuadraticTerm.exists_of_evaluate_eq_ok hy
  rcases List.mem_pair.mp hside with rfl | rfl
  · exact hfirst
  · exact hsecond

theorem ModelFunction.exists_of_evaluate_eq_ok {f : ModelFunction α} {value : Value α}
    (h : f.evaluate lookup = .ok value) : ∀ v ∈ f.occurrences, ∃ x, lookup v = .ok x := by
  cases f with
  | singleVariable v =>
    obtain ⟨x, hx, -⟩ := map_eq_ok.mp h
    exact List.forall_mem_singleton.mpr ⟨x, orError_eq_ok.mp hx⟩
  | vectorOfVariables vs =>
    obtain ⟨xs, hxs, -⟩ := map_eq_ok.mp h
    exact exists_of_mapM_eq_ok (orError_eq_ok.mp hxs)
  | scalarAffine f =>
    obtain ⟨x, hx, -⟩ := map_eq_ok.mp h
    obtain ⟨products, hproducts, -⟩ := bind_eq_ok.mp (orError_eq_ok.mp hx)
    exact exists_of_affine (exists_of_mapM_eq_ok hproducts)
  | vectorAffine f =>
    obtain ⟨xs, hxs, -⟩ := map_eq_ok.mp h
    exact exists_of_affine (exists_of_addRows_eq_ok hxs)
  | scalarQuadratic f =>
    obtain ⟨x, hx, -⟩ := map_eq_ok.mp h
    obtain ⟨affine, haffine, hrest⟩ := bind_eq_ok.mp (orError_eq_ok.mp hx)
    obtain ⟨quadratic, hquadratic, -⟩ := bind_eq_ok.mp hrest
    exact List.forall_mem_append.mpr ⟨exists_of_quadratic (exists_of_mapM_eq_ok hquadratic),
      exists_of_affine (exists_of_mapM_eq_ok haffine)⟩
  | vectorQuadratic f =>
    obtain ⟨xs, hxs, -⟩ := map_eq_ok.mp h
    obtain ⟨out, hout, hrest⟩ := bind_eq_ok.mp hxs
    exact List.forall_mem_append.mpr ⟨exists_of_quadratic (exists_of_addRows_eq_ok hrest),
      exists_of_affine (exists_of_addRows_eq_ok hout)⟩

/-! ### One list for all -/

namespace ModelFunction

/-- What the variables of `f` have to be for those who list, check and evaluate it. -/
structure HasVariables (f : ModelFunction α) (vs : List VariableIndex) : Prop where
  nodup : vs.Nodup
  order : vs.Pairwise f.FirstBefore
  mem_iff : ∀ v, v ∈ vs ↔ ∃ k, f.place? k = some v
  mentions_iff : ∀ v, f.mentions v = true ↔ v ∈ vs
  /-- Only the values of these variables count. -/
  congr : ∀ lookup lookup', (∀ v ∈ vs, lookup v = lookup' v) →
    f.evaluate lookup = f.evaluate lookup'
  /-- The values of all of them are needed, and no others. -/
  evaluates_iff : (∀ row ∈ f.rows, row < f.dimension) → ∀ lookup,
    (∃ x, f.evaluate lookup = .ok x) ↔ ∀ v ∈ vs, ∃ x, lookup v = .ok x
  /-- The error is what is answered for one of them. -/
  error : (∀ row ∈ f.rows, row < f.dimension) → ∀ lookup failure,
    f.evaluate lookup = .error failure → ∃ v ∈ vs, ∃ e, lookup v = .error e ∧ failure = .error e

theorem hasVariables_distinctVariables (f : ModelFunction α) :
    f.HasVariables f.distinctVariables where
  nodup := f.nodup_distinctVariables
  order := f.pairwise_distinctVariables
  mem_iff v := (f.mem_distinctVariables v).trans mem_occurrences_iff_place
  mentions_iff v := (f.mentions_iff_mem_occurrences v).trans (f.mem_distinctVariables v).symm
  congr lookup lookup' h := f.evaluate_congr fun v hv => h v ((f.mem_distinctVariables v).mpr hv)
  evaluates_iff hrow lookup := by
    simp only [mem_distinctVariables]
    constructor
    · rintro ⟨x, hx⟩
      exact exists_of_evaluate_eq_ok hx
    · intro h
      rcases f.evaluate_cases hrow lookup with ⟨x, hx, -⟩ | ⟨e, -, v, hv, he⟩
      · exact ⟨x, hx⟩
      · obtain ⟨x, hx⟩ := h v hv
        rw [hx] at he
        cases he
  error hrow lookup failure h := by
    simp only [mem_distinctVariables]
    rcases f.evaluate_cases hrow lookup with ⟨x, hx, -⟩ | ⟨e, he, v, hv, hlookup⟩
    · rw [hx] at h
      cases h
    · rw [he] at h
      exact ⟨v, hv, e, hlookup, (Except.error.inj h).symm⟩

/-- No other list will do. -/
theorem HasVariables.eq_distinctVariables {f : ModelFunction α} {vs : List VariableIndex}
    (h : f.HasVariables vs) : vs = f.distinctVariables := by
  have hperm : vs.Perm f.distinctVariables :=
    (List.perm_ext_iff_of_nodup h.nodup f.nodup_distinctVariables).mpr fun v =>
      (h.mem_iff v).trans ((f.mem_distinctVariables v).trans mem_occurrences_iff_place).symm
  exact hperm.eq_of_pairwise (fun v w _ _ hvw hwv => absurd hwv hvw.asymm) h.order
    f.pairwise_distinctVariables

/-- The variable with number 1 stands in quadratic terms only. -/
def mixedTerms : ModelFunction ℚ := .vectorQuadratic
  ⟨[⟨1, ⟨2, ⟨3⟩, ⟨1⟩⟩⟩, ⟨0, ⟨1, ⟨1⟩, ⟨1⟩⟩⟩], [⟨0, ⟨5, ⟨2⟩⟩⟩, ⟨1, ⟨-1, ⟨3⟩⟩⟩], [7, 0]⟩

/-- Without a value for that variable the function has none, and with one it has. -/
theorem mixedTerms_hasVariables :
    (∀ row ∈ mixedTerms.rows, row < mixedTerms.dimension) ∧
      mixedTerms.distinctVariables = [⟨3⟩, ⟨1⟩, ⟨2⟩] ∧
      (∀ failure, mixedTerms.evaluate
        (fun v => if v.number = 1 then .error (.noPrimal v) else .ok 4) = .error failure →
          failure = .error (.noPrimal ⟨1⟩)) ∧
      ∃ x, mixedTerms.evaluate
        (fun v => if v.number = 0 then .error (.noPrimal v) else .ok 4) = .ok x := by
  have hrow : ∀ row ∈ mixedTerms.rows, row < mixedTerms.dimension := by decide
  have h := mixedTerms.hasVariables_distinctVariables
  have hvs : mixedTerms.distinctVariables = [⟨3⟩, ⟨1⟩, ⟨2⟩] := by decide
  refine ⟨hrow, hvs, fun failure hfailure => ?_, ?_⟩
  · obtain ⟨v, hv, e, he, rfl⟩ := h.error hrow _ failure hfailure
    rw [hvs] at hv
    fin_cases hv
    · cases he
    · cases he
      rfl
    · cases he
  · rw [h.evaluates_iff hrow, hvs]
    intro v hv
    fin_cases hv <;> exact ⟨4, rfl⟩

end ModelFunction

end DualRecovery
