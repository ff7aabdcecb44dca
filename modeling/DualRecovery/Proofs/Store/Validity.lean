import Mathlib
import DualRecovery.Store.Command

/-! What holds of every store that commands can bring about: its functions mention only its
variables and have all the rows of their terms, function and set of a constraint have one shape,
and the duals that are stored have the shape of their constraints. -/

namespace DualRecovery

variable {α : Type}

theorem bind_eq_ok {ε β γ : Type} {x : Except ε β} {f : β → Except ε γ} {c : γ} :
    (x >>= f) = .ok c ↔ ∃ b, x = .ok b ∧ f b = .ok c := by
  cases x <;> simp [bind, Except.bind]

theorem bind_eq_error {ε β γ : Type} {x : Except ε β} {f : β → Except ε γ} {e : ε} :
    (x >>= f) = .error e ↔ x = .error e ∨ ∃ b, x = .ok b ∧ f b = .error e := by
  cases x <;> simp [bind, Except.bind]

theorem forM_eq_ok {ε β : Type} {f : β → Except ε Unit} {xs : List β} :
    xs.forM f = .ok () ↔ ∀ x ∈ xs, f x = .ok () := by
  induction xs with
  | nil => exact iff_of_true rfl fun _ h => absurd h List.not_mem_nil
  | cons x xs ih =>
    rw [List.forall_mem_cons, ← ih]
    exact bind_eq_ok.trans ⟨fun ⟨_, hx, hxs⟩ => ⟨hx, hxs⟩, fun ⟨hx, hxs⟩ => ⟨(), hx, hxs⟩⟩

/-- The variables of `f` are among the first `n`, and its terms are in rows that it has. -/
structure ModelFunction.Fits (f : ModelFunction α) (n : ℕ) : Prop where
  occurrences : ∀ v ∈ f.occurrences, v.number < n
  rows : ∀ row ∈ f.rows, row < f.dimension

/-- The function fits, and its values have the shape of the elements of the set, whose dimension
does not overflow. -/
structure Constraint.Fits (c : Constraint α) (n : ℕ) : Prop where
  function : c.function.Fits n
  isScalar : c.function.kind.isScalar = c.set.isScalar
  dimension : c.function.dimension = c.set.dimension
  size : c.set.size = .ok c.set.dimension

theorem ModelFunction.Fits.mono {f : ModelFunction α} {n n' : ℕ} (h : f.Fits n) (hn : n ≤ n') :
    f.Fits n' :=
  ⟨fun v hv => (h.occurrences v hv).trans_le hn, h.rows⟩

theorem Constraint.Fits.mono {c : Constraint α} {n n' : ℕ} (h : c.Fits n) (hn : n ≤ n') :
    c.Fits n' :=
  { h with function := h.function.mono hn }

namespace Store

/-! ### Checks -/

theorem verifyVariable_eq_ok_iff {m : Store α} {v : VariableIndex} :
    m.verifyVariable v = .ok () ↔ v.number < m.variableCount := by
  unfold verifyVariable
  split
  · next h => exact iff_of_true rfl h
  · next h => exact iff_of_false nofun h

theorem verifyRow_eq_ok_iff {dimension : ℕ} {rows : List ℕ} :
    verifyRow dimension rows.max? = .ok () ↔ ∀ row ∈ rows, row < dimension := by
  cases hmax : rows.max? with
  | none =>
    rw [List.max?_eq_none_iff.mp hmax]
    exact iff_of_true rfl fun _ h => absurd h List.not_mem_nil
  | some row =>
    obtain ⟨hmem, hle⟩ := List.max?_eq_some_iff.mp hmax
    rw [verifyRow]
    split
    · next hlt => exact iff_of_true rfl fun row' h => (hle row' h).trans_lt hlt
    · next hlt =>
      refine iff_of_false (fun h => ?_) fun h => hlt (h row hmem)
      obtain ⟨_, -, h⟩ := bind_eq_ok.mp h
      cases h

theorem verifyVariables_eq_ok_iff {m : Store α} {f : ModelFunction α} :
    f.distinctVariables.forM m.verifyVariable = .ok () ↔
      ∀ v ∈ f.occurrences, v.number < m.variableCount := by
  simp only [forM_eq_ok, verifyVariable_eq_ok_iff, ModelFunction.distinctVariables,
    List.mem_eraseDups]

theorem verifyFunction_eq_ok_iff {m : Store α} {f : ModelFunction α} :
    m.verifyFunction f = .ok () ↔ f.Fits m.variableCount := by
  rw [verifyFunction, bind_eq_ok]
  constructor
  · rintro ⟨_, hvariables, hrows⟩
    exact ⟨verifyVariables_eq_ok_iff.mp (orError_eq_ok.mp hvariables),
      verifyRow_eq_ok_iff.mp hrows⟩
  · intro h
    exact ⟨(), orError_eq_ok.mpr (verifyVariables_eq_ok_iff.mpr h.occurrences),
      verifyRow_eq_ok_iff.mpr h.rows⟩

theorem verifyConstraint_eq_ok_iff {m : Store α} {c : Constraint α} :
    m.verifyConstraint c = .ok () ↔ c.Fits m.variableCount := by
  rw [verifyConstraint, bind_eq_ok]
  constructor
  · rintro ⟨_, hfunction, hshape⟩
    split at hshape
    · cases hshape
    · next hscalar =>
      obtain ⟨n, hsize, hshape⟩ := bind_eq_ok.mp hshape
      rw [orFault_eq_ok] at hsize
      obtain rfl := ConstraintSet.eq_dimension_of_size hsize
      split at hshape
      · cases hshape
      · next hdimension =>
        exact ⟨verifyFunction_eq_ok_iff.mp hfunction, not_not.mp hscalar, not_not.mp hdimension,
          hsize⟩
  · intro h
    refine ⟨(), verifyFunction_eq_ok_iff.mpr h.function, ?_⟩
    rw [if_neg (not_not.mpr h.isScalar), h.size]
    exact if_neg (not_not.mpr h.dimension)

theorem constraint_eq_ok_iff {m : Store α} {ci : ConstraintIndex} {c : Constraint α} :
    m.constraint ci = .ok c ↔ m.constraint? ci = some c := by
  unfold constraint
  cases m.constraint? ci <;> simp

theorem verifyDual_eq_ok {m : Store α} {ci : ConstraintIndex} {y : Value α}
    (h : m.verifyDual ci y = .ok ()) : ∃ c, m.constraint? ci = some c ∧ c.admits y = true := by
  obtain ⟨c, hc, h⟩ := bind_eq_ok.mp h
  obtain ⟨n, -, hy⟩ := bind_eq_ok.mp h
  refine ⟨c, constraint_eq_ok_iff.mp (orError_eq_ok.mp hc), ?_⟩
  by_contra hadmits
  rw [if_neg hadmits] at hy
  cases hy

theorem verifyDual_of_fits {m : Store α} {ci : ConstraintIndex} {c : Constraint α} {n : ℕ}
    {y : Value α} (hc : m.constraint ci = .ok c) (h : c.Fits n) (hy : c.admits y = true) :
    m.verifyDual ci y = .ok () := by
  have hshape : c.verifyDual y = .ok () := by
    rw [Constraint.verifyDual, h.size]
    exact if_pos hy
  rw [verifyDual, hc]
  exact hshape

/-- What is refused changes nothing. -/
theorem checked_cases {β : Type} (m : Store α) (check : Except (Failure QueryError) Unit)
    (change : Store α → β × Store α) :
    (∃ failure, check = .error failure ∧ m.checked check change = (.error failure, m)) ∨
      (check = .ok () ∧ m.checked check change = (.ok (change m).1, (change m).2)) := by
  cases check with
  | error failure => exact Or.inl ⟨failure, rfl, rfl⟩
  | ok u => exact Or.inr ⟨rfl, rfl⟩

/-! ### The invariant -/

structure Valid (m : Store α) : Prop where
  constraints : ∀ c ∈ m.constraints, c.Fits m.variableCount
  objective : m.objective.Fits m.variableCount
  duals : ∀ result ∈ m.results, ∀ ci y, result.duals.get? ci = some y →
    ∃ c, m.constraint? ci = some c ∧ c.admits y = true

theorem valid_empty [Zero α] : (empty : Store α).Valid where
  constraints := fun _ h => absurd h List.not_mem_nil
  objective := ⟨fun _ h => absurd h List.not_mem_nil, fun _ h => absurd h List.not_mem_nil⟩
  duals := fun _ h => absurd h List.not_mem_nil

theorem constraint?_eq_some_iff {m : Store α} {ci : ConstraintIndex} {c : Constraint α} :
    m.constraint? ci = some c ↔ m.constraints[ci.number]? = some c ∧ c.family = ci.family := by
  simp [constraint?, Option.filter_eq_some_iff]

namespace Valid

variable {m : Store α}

theorem addVariable (h : m.Valid) : m.addVariable.2.Valid where
  constraints c hc := (h.constraints c hc).mono (Nat.le_succ _)
  objective := h.objective.mono (Nat.le_succ _)
  duals := h.duals

theorem addVariables (h : m.Valid) (count : ℕ) : (m.addVariables count).2.Valid := by
  induction count generalizing m with
  | zero => exact h
  | succ count ih => exact ih h.addVariable

/-- What is checked keeps the invariant if the change after the check does. -/
theorem checked {β : Type} {check : Except (Failure QueryError) Unit}
    {change : Store α → β × Store α} (h : m.Valid)
    (hchange : check = .ok () → (change m).2.Valid) : (m.checked check change).2.Valid := by
  rcases m.checked_cases check change with ⟨failure, -, heq⟩ | ⟨hcheck, heq⟩
  · rw [heq]
    exact h
  · rw [heq]
    exact hchange hcheck

theorem addConstraint (h : m.Valid) (function : ModelFunction α) (set : ConstraintSet α) :
    (m.addConstraint function set).2.Valid := by
  refine h.checked fun hcheck => ⟨fun c hc => ?_, h.objective, fun result hresult ci y hy => ?_⟩
  · rcases List.mem_append.mp hc with hc | hc
    · exact h.constraints c hc
    · rw [List.mem_singleton.mp hc]
      exact verifyConstraint_eq_ok_iff.mp hcheck
  · obtain ⟨c, hc, hadmits⟩ := h.duals result hresult ci y hy
    rw [constraint?_eq_some_iff] at hc
    refine ⟨c, constraint?_eq_some_iff.mpr ⟨?_, hc.2⟩, hadmits⟩
    exact (List.getElem?_append_left (List.getElem?_eq_some_iff.mp hc.1).1).trans hc.1

theorem setObjective (h : m.Valid) (sense : Sense) (objective : ModelFunction α) :
    (m.setObjective sense objective).2.Valid :=
  h.checked fun hcheck => ⟨h.constraints, verifyFunction_eq_ok_iff.mp hcheck, h.duals⟩

/-- A change of a result keeps the invariant if the duals after it are those before it and admitted
ones. -/
theorem modifyResult (h : m.Valid) (r : ℕ) {change : Result α → Result α}
    (hchange : ∀ result ci y, (change result).duals.get? ci = some y →
      result.duals.get? ci = some y ∨ ∃ c, m.constraint? ci = some c ∧ c.admits y = true) :
    (m.modifyResult r change).Valid := by
  refine ⟨h.constraints, h.objective, fun result hresult ci y hy => ?_⟩
  obtain ⟨s, hs⟩ := List.mem_iff_getElem?.mp hresult
  rw [getElem?_results_modifyResult] at hs
  have hold : ∀ old, old = (m.results[r]?.getD .empty) → old.duals.get? ci = some y →
      ∃ c, m.constraint? ci = some c ∧ c.admits y = true := by
    rintro old rfl hget
    cases hr : m.results[r]? with
    | none => simp [hr, Result.empty] at hget
    | some old =>
      rw [hr] at hget
      exact h.duals old (List.mem_of_getElem? hr) ci y hget
  split at hs
  · obtain rfl := Option.some.inj hs
    rcases hchange _ _ _ hy with hget | hadmitted
    · exact hold _ rfl hget
    · exact hadmitted
  · split at hs
    · exact h.duals result (List.mem_of_getElem? hs) ci y hy
    · split at hs
      · obtain rfl := Option.some.inj hs
        simp [Result.empty] at hy
      · cases hs

theorem reportPrimal (h : m.Valid) (r : ℕ) (v : VariableIndex) (x : α) :
    (m.reportPrimal r v x).2.Valid :=
  h.checked fun _ => h.modifyResult r fun _ _ _ hy => Or.inl hy

theorem reportPrimals (h : m.Valid) (r : ℕ) (values : List α) :
    (m.reportPrimals r values).2.Valid :=
  h.checked fun _ => h.modifyResult r fun _ _ _ hy => Or.inl hy

theorem reportDual (h : m.Valid) (r : ℕ) (ci : ConstraintIndex) (y : Value α) :
    (m.reportDual r ci y).2.Valid := by
  refine h.checked fun hcheck => h.modifyResult r fun result cj y' hy => ?_
  rw [Assignment.get?_set] at hy
  split at hy
  · next hci =>
    obtain rfl := Option.some.inj hy
    rw [hci]
    exact Or.inr (verifyDual_eq_ok hcheck)
  · exact Or.inl hy

theorem run (h : m.Valid) (command : Command α) : (m.run command).2.Valid := by
  cases command with
  | addVariable => exact h.addVariable
  | addVariables count => exact h.addVariables count
  | addConstraint function set => exact h.addConstraint function set
  | setObjective sense objective => exact h.setObjective sense objective
  | reportPrimalStatus r status => exact h.modifyResult r fun _ _ _ hy => Or.inl hy
  | reportDualStatus r status => exact h.modifyResult r fun _ _ _ hy => Or.inl hy
  | reportPrimal r v x => exact h.reportPrimal r v x
  | reportPrimals r values => exact h.reportPrimals r values
  | reportDual r ci y => exact h.reportDual r ci y

theorem runAll (h : m.Valid) (commands : List (Command α)) : (m.runAll commands).Valid := by
  induction commands generalizing m with
  | nil => exact h
  | cons command commands ih => exact ih (h.run command)

end Valid

theorem Reachable.valid [Zero α] {m : Store α} (h : m.Reachable) : m.Valid := by
  obtain ⟨commands, rfl⟩ := h
  exact valid_empty.runAll commands

end Store

end DualRecovery
