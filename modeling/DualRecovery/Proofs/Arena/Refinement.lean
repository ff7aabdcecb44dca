import DualRecovery.Arena.Command
import DualRecovery.Proofs.Store.Numbering

/-! An arena lays out a store: a command gets the same answer from both, and leaves them alike. So a
run from nothing ends in an arena and a store that answer all queries in the same way. -/

namespace DualRecovery

/-! ### Reports -/

namespace Report

variable {α : Type} {n : ℕ}

/-- The report lays out the result: a value stands in the slot of its variable. -/
structure Represents (report : Report α n) (result : Result α) : Prop where
  primalStatus : report.primalStatus = result.primalStatus
  dualStatus : report.dualStatus = result.dualStatus
  primals : ∀ v : VariableIndex, result.primals.get? v = report.primals[v.number]?.join
  duals : report.duals = result.duals

namespace Represents

variable {report : Report α n} {result : Result α}

theorem empty (n : ℕ) : (Report.empty n : Report α n).Represents Result.empty where
  primalStatus := rfl
  dualStatus := rfl
  primals v := by
    rw [Report.empty, Vector.getElem?_replicate]
    split <;> rfl
  duals := rfl

theorem addVariable (h : report.Represents result) : report.addVariable.Represents result where
  primalStatus := h.primalStatus
  dualStatus := h.dualStatus
  primals v := by
    rw [h.primals, Report.addVariable, Vector.getElem?_push]
    split
    · next hv => rw [Vector.getElem?_eq_none (by omega)]; rfl
    · rfl
  duals := h.duals

theorem setPrimal (h : report.Represents result) {v : VariableIndex} (hv : v.number < n) (x : α) :
    ({ report with primals := report.primals.set v.number (some x) } : Report α n).Represents
      { result with primals := result.primals.set v x } where
  primalStatus := h.primalStatus
  dualStatus := h.dualStatus
  primals w := by
    rw [Assignment.get?_set, h.primals, Vector.getElem?_set]
    by_cases hw : w = v
    · rw [if_pos hw, hw, if_pos rfl]
      rfl
    · rw [if_neg hw, if_neg fun hn => hw (congrArg VariableIndex.mk hn.symm)]
  duals := h.duals

theorem setDual (h : report.Represents result) (ci : ConstraintIndex) (y : Value α) :
    ({ report with duals := report.duals.set ci y } : Report α n).Represents
      { result with duals := result.duals.set ci y } :=
  { h with duals := by rw [h.duals] }

end Represents

end Report

theorem Assignment.get?_setAll_zipIdx {α : Type} (a : Assignment VariableIndex α)
    (values : List α) (v : VariableIndex) :
    (a.setAll (values.zipIdx.map fun x => (⟨x.2⟩, x.1))).get? v =
      values[v.number]?.or (a.get? v) := by
  induction values using List.reverseRecOn with
  | nil => rfl
  | append_singleton values x ih =>
    rw [setAll] at ih
    rw [List.zipIdx_append, List.map_append, setAll, List.foldl_append]
    simp only [List.zipIdx_singleton, List.map_cons, List.map_nil, List.foldl_cons,
      List.foldl_nil, get?_set, ih, Nat.zero_add]
    by_cases hv : v = ⟨values.length⟩
    · simp [hv]
    · have hne : v.number ≠ values.length := fun hn => hv (congrArg VariableIndex.mk hn)
      rw [if_neg hv, List.getElem?_append]
      split
      · rfl
      · next hlt =>
        rw [List.getElem?_eq_none (Nat.not_lt.mp hlt), List.getElem?_eq_none]
        simp; omega

/-- Reports of all variables fill all slots. -/
theorem Report.Represents.setPrimals {α : Type} {n : ℕ} {report : Report α n} {result : Result α}
    (h : report.Represents result) {values : List α} (hlength : values.length = n)
    (hsize : (values.map some).toArray.size = n) :
    ({ report with primals := ⟨(values.map some).toArray, hsize⟩ } : Report α n).Represents
      { result with
        primals := result.primals.setAll (values.zipIdx.map fun x => (⟨x.2⟩, x.1)) } where
  primalStatus := h.primalStatus
  dualStatus := h.dualStatus
  primals v := by
    rw [Assignment.get?_setAll_zipIdx, h.primals]
    simp only [Vector.getElem?_mk, List.getElem?_toArray, List.getElem?_map]
    by_cases hv : v.number < n
    · rw [List.getElem?_eq_getElem (by omega)]
      rfl
    · rw [List.getElem?_eq_none (by omega), Vector.getElem?_eq_none (by omega)]
      rfl
  duals := h.duals

namespace Arena

variable {α : Type}

/-! ### Arenas and stores -/

/-- The arena lays out the store. -/
structure Represents (a : Arena α) (m : Store α) : Prop where
  variableCount : a.variableCount = m.variableCount
  nextNumber : a.nextNumber = m.constraints.length
  constraints : a.constraints.entries = m.numbered
  families : a.families.keys = m.families
  indices : ∀ family, a.indices family = m.indices family
  objective : a.objective = m.objective
  sense : a.sense = m.sense
  count : a.reports.length = m.results.length
  reports : ∀ (r : ℕ) (report : Report α a.variableCount) (result : Result α),
    a.reports[r]? = some report → m.results[r]? = some result → report.Represents result

namespace Represents

variable {a : Arena α} {m : Store α}

theorem empty [Zero α] : (Arena.empty : Arena α).Represents Store.empty where
  variableCount := rfl
  nextNumber := rfl
  constraints := rfl
  families := rfl
  indices _ := rfl
  objective := rfl
  sense := rfl
  count := rfl
  reports _ _ _ h := by cases h

theorem constraint (h : a.Represents m) (ci : ConstraintIndex) :
    a.constraint ci = m.constraint ci := by
  have hget : a.constraints.get? ci = m.constraint? ci := by
    rw [Table.get?, h.constraints, Store.lookup_numbered]
  rw [Arena.constraint, hget]
  rfl

/-- The result that a report lays out. -/
theorem exists_result (h : a.Represents m) {r : ℕ} {report : Report α a.variableCount}
    (hr : a.reports[r]? = some report) :
    ∃ result, m.results[r]? = some result ∧ report.Represents result := by
  have hlt : r < m.results.length := h.count ▸ (List.getElem?_eq_some_iff.mp hr).1
  exact ⟨m.results[r], List.getElem?_eq_getElem hlt,
    h.reports r report _ hr (List.getElem?_eq_getElem hlt)⟩

theorem getElem?_results_eq_none (h : a.Represents m) {r : ℕ} (hr : a.reports[r]? = none) :
    m.results[r]? = none := by
  rw [List.getElem?_eq_none_iff] at hr ⊢
  exact h.count ▸ hr

/-! ### Queries -/

theorem primal (h : a.Represents m) (v : VariableIndex) (r : ℕ) :
    a.primal v r = m.primal v r := by
  unfold Arena.primal Store.primal Store.verifyVariable
  by_cases hv : v.number < a.variableCount
  · rw [dif_pos hv, if_pos (h.variableCount ▸ hv)]
    unfold Arena.report Store.result
    cases hr : a.reports[r]? with
    | none =>
      rw [h.getElem?_results_eq_none hr, h.count]
      rfl
    | some report =>
      obtain ⟨result, hresult, hrep⟩ := h.exists_result hr
      have hslot : result.primals.get? v = report.primals[v.number] := by
        rw [hrep.primals, Vector.getElem?_eq_getElem hv]
        rfl
      rw [hresult]
      dsimp only [bind, Except.bind]
      cases hx : report.primals[v.number] with
      | none => rw [hslot, hx]
      | some x => rw [hslot, hx]
  · rw [dif_neg hv, if_neg (h.variableCount ▸ hv)]
    rfl

theorem dual (h : a.Represents m) (ci : ConstraintIndex) (r : ℕ) : a.dual ci r = m.dual ci r := by
  unfold Arena.dual Store.dual
  rw [h.constraint]
  unfold Arena.report Store.result
  cases hr : a.reports[r]? with
  | none =>
    rw [h.getElem?_results_eq_none hr, h.count]
    rfl
  | some report =>
    obtain ⟨⟨_, _, _, duals⟩, hresult, hrep⟩ := h.exists_result hr
    obtain rfl : report.duals = duals := hrep.duals
    rw [hresult]
    rfl

theorem primalStatus (h : a.Represents m) (r : ℕ) : a.primalStatus r = m.primalStatus r := by
  unfold Arena.primalStatus Store.primalStatus
  cases hr : a.reports[r]? with
  | none => rw [h.getElem?_results_eq_none hr]; rfl
  | some report =>
    obtain ⟨result, hresult, hrep⟩ := h.exists_result hr
    rw [hresult]
    exact hrep.primalStatus

theorem dualStatus (h : a.Represents m) (r : ℕ) : a.dualStatus r = m.dualStatus r := by
  unfold Arena.dualStatus Store.dualStatus
  cases hr : a.reports[r]? with
  | none => rw [h.getElem?_results_eq_none hr]; rfl
  | some report =>
    obtain ⟨result, hresult, hrep⟩ := h.exists_result hr
    rw [hresult]
    exact hrep.dualStatus

theorem backend_eq (h : a.Represents m) : a.backend = m.backend := by
  unfold Arena.backend Store.backend
  simp only [h.objective, h.sense, h.families, h.constraint, Backend.mk.injEq, true_and]
  exact ⟨funext fun v => funext fun r => h.primal v r, funext h.indices, funext h.primalStatus,
    funext h.dualStatus, funext fun ci => funext fun r => h.dual ci r⟩

/-! ### Changes -/

theorem addVariable (h : a.Represents m) : a.addVariable.2.Represents m.addVariable.2 where
  variableCount := congrArg Nat.succ h.variableCount
  nextNumber := h.nextNumber
  constraints := h.constraints
  families := h.families
  indices := h.indices
  objective := h.objective
  sense := h.sense
  count := (List.length_map _).trans h.count
  reports := by
    intro r (report : Report α (a.variableCount + 1)) result hr hresult
    replace hr : (a.reports.map (·.addVariable))[r]? = some report := hr
    rw [List.getElem?_map, Option.map_eq_some_iff] at hr
    obtain ⟨old, hold, rfl⟩ := hr
    exact (h.reports r old result hold hresult).addVariable

theorem addVariable_eq (h : a.Represents m) : a.addVariable.1 = m.addVariable.1 :=
  congrArg VariableIndex.mk h.variableCount

theorem addVariables (h : a.Represents m) (count : ℕ) :
    (a.addVariables count).1 = (m.addVariables count).1 ∧
      (a.addVariables count).2.Represents (m.addVariables count).2 := by
  induction count generalizing a m with
  | zero => exact ⟨rfl, h⟩
  | succ count ih =>
    obtain ⟨hanswer, hrep⟩ := ih h.addVariable
    refine ⟨?_, hrep⟩
    show a.addVariable.1 :: (a.addVariable.2.addVariables count).1 =
      m.addVariable.1 :: (m.addVariable.2.addVariables count).1
    rw [h.addVariable_eq, hanswer]

/-- Reports and results that are changed alike stay alike. -/
theorem modifyReport (h : a.Represents m) (r : ℕ)
    {change : Report α a.variableCount → Report α a.variableCount} {change' : Result α → Result α}
    (hchange : ∀ report result, report.Represents result →
      (change report).Represents (change' result)) :
    (a.modifyReport r change).Represents (m.modifyResult r change') where
  variableCount := h.variableCount
  nextNumber := h.nextNumber
  constraints := h.constraints
  families := h.families
  indices := h.indices
  objective := h.objective
  sense := h.sense
  count := by
    rw [Store.length_results_modifyResult, ← h.count]
    exact Report.length_modifyAt r change a.reports
  reports := by
    intro s (report : Report α a.variableCount) result hs hs'
    replace hs : (Report.modifyAt r change a.reports)[s]? = some report := hs
    rw [Report.getElem?_modifyAt] at hs
    rw [Store.getElem?_results_modifyResult, ← h.count] at hs'
    split at hs
    · next hsr =>
      rw [if_pos hsr] at hs'
      obtain rfl := Option.some.inj hs
      obtain rfl := Option.some.inj hs'
      apply hchange
      cases hr : a.reports[r]? with
      | none =>
        rw [h.getElem?_results_eq_none hr]
        exact Report.Represents.empty a.variableCount
      | some old =>
        obtain ⟨old', hold', hrep⟩ := h.exists_result hr
        rw [hold']
        exact hrep
    · next hsr =>
      rw [if_neg hsr] at hs'
      split at hs
      · next hlt =>
        rw [if_pos hlt] at hs'
        exact h.reports s report result hs hs'
      · next hlt =>
        rw [if_neg hlt] at hs'
        split at hs
        · next hsr =>
          rw [if_pos hsr] at hs'
          obtain rfl := Option.some.inj hs
          obtain rfl := Option.some.inj hs'
          exact Report.Represents.empty a.variableCount
        · cases hs

theorem verifyFunction (h : a.Represents m) (f : ModelFunction α) :
    a.outline.verifyFunction f = m.verifyFunction f := by
  have hvariable : a.outline.verifyVariable = m.verifyVariable := by
    funext v
    unfold Store.verifyVariable
    rw [← h.variableCount]
    rfl
  rw [Store.verifyFunction, hvariable]
  rfl

theorem verifyConstraint (h : a.Represents m) (c : Constraint α) :
    a.outline.verifyConstraint c = m.verifyConstraint c := by
  rw [Store.verifyConstraint, h.verifyFunction]
  rfl

/-- No constraint has the number of the next one. -/
theorem not_mem_keys (h : a.Represents m) (family : Family) :
    ⟨family, a.nextNumber⟩ ∉ a.constraints.keys := by
  intro hmem
  rw [Table.keys, h.constraints] at hmem
  obtain ⟨p, hp, hpi⟩ := List.mem_map.mp hmem
  have hlt := m.number_lt_of_mem_numbered hp
  rw [hpi, ← h.nextNumber] at hlt
  exact lt_irrefl _ hlt

theorem insertConstraint (h : a.Represents m) (c : Constraint α) :
    (a.insertConstraint c).arena.Represents { m with constraints := m.constraints ++ [c] } where
  variableCount := h.variableCount
  nextNumber := by
    rw [List.length_append, ← h.nextNumber]
    rfl
  constraints := by
    rw [Store.numbered_append, ← h.constraints, ← h.nextNumber]
    exact Table.entries_insert_of_not_mem (h.not_mem_keys c.family) c
  families := by
    show (a.families.update c.family _).keys = _
    rw [Table.keys_update, h.families, Store.families_append]
  indices family := by
    show ((a.families.update c.family _).get? family).getD [] = _
    have hold := h.indices
    unfold Arena.indices at hold
    rw [Table.get?_update, Store.indices_append, ← h.nextNumber]
    split
    · rw [Option.getD_some, hold]
    · exact hold family
  objective := h.objective
  sense := h.sense
  count := h.count
  reports := h.reports

/-- Checks that agree are followed by changes that agree. -/
theorem checked {β : Type} (h : a.Represents m) (check : Except (Failure QueryError) Unit)
    {change : Arena α → Outcome α β} {change' : Store α → β × Store α}
    (hanswer : (change a).answer = .ok (change' m).1)
    (hrep : (change a).arena.Represents (change' m).2) :
    (a.checked check change).answer = (m.checked check change').1 ∧
      (a.checked check change).arena.Represents (m.checked check change').2 := by
  cases check with
  | error failure => exact ⟨rfl, h⟩
  | ok u => exact ⟨hanswer, hrep⟩

theorem addConstraint (h : a.Represents m) (function : ModelFunction α) (set : ConstraintSet α) :
    (a.addConstraint function set).answer = (m.addConstraint function set).1 ∧
      (a.addConstraint function set).arena.Represents (m.addConstraint function set).2 := by
  unfold Arena.addConstraint Store.addConstraint
  rw [h.verifyConstraint]
  refine h.checked _ ?_ (h.insertConstraint ⟨function, set⟩)
  show (.ok ⟨_, a.nextNumber⟩ : Except (Failure QueryError) ConstraintIndex) = _
  rw [h.nextNumber]

theorem setObjective (h : a.Represents m) (sense : Sense) (objective : ModelFunction α) :
    (a.setObjective sense objective).answer = (m.setObjective sense objective).1 ∧
      (a.setObjective sense objective).arena.Represents (m.setObjective sense objective).2 := by
  unfold Arena.setObjective Store.setObjective
  rw [h.verifyFunction]
  exact h.checked _ rfl { h with objective := rfl, sense := rfl }

theorem reportPrimal (h : a.Represents m) (r : ℕ) (v : VariableIndex) (x : α) :
    (a.reportPrimal r v x).answer = (m.reportPrimal r v x).1 ∧
      (a.reportPrimal r v x).arena.Represents (m.reportPrimal r v x).2 := by
  unfold Arena.reportPrimal Store.reportPrimal Store.verifyVariable
  by_cases hv : v.number < a.variableCount
  · rw [dif_pos hv, if_pos (h.variableCount ▸ hv)]
    exact ⟨rfl, h.modifyReport r fun _ _ hrep => hrep.setPrimal hv x⟩
  · rw [dif_neg hv, if_neg (h.variableCount ▸ hv)]
    exact ⟨rfl, h⟩

theorem reportPrimals (h : a.Represents m) (r : ℕ) (values : List α) :
    (a.reportPrimals r values).answer = (m.reportPrimals r values).1 ∧
      (a.reportPrimals r values).arena.Represents (m.reportPrimals r values).2 := by
  unfold Arena.reportPrimals Store.reportPrimals Store.verifyPrimals
  by_cases hlength : values.length = a.variableCount
  · rw [dif_pos hlength, if_pos (h.variableCount ▸ hlength)]
    exact ⟨rfl, h.modifyReport r fun _ _ hrep => hrep.setPrimals hlength _⟩
  · rw [dif_neg hlength, if_neg (h.variableCount ▸ hlength), h.variableCount]
    exact ⟨rfl, h⟩

theorem verifyDual (h : a.Represents m) (ci : ConstraintIndex) (y : Value α) :
    a.verifyDual ci y = m.verifyDual ci y := by
  rw [Arena.verifyDual, h.constraint]
  rfl

theorem reportDual (h : a.Represents m) (r : ℕ) (ci : ConstraintIndex) (y : Value α) :
    (a.reportDual r ci y).answer = (m.reportDual r ci y).1 ∧
      (a.reportDual r ci y).arena.Represents (m.reportDual r ci y).2 := by
  unfold Arena.reportDual Store.reportDual
  rw [h.verifyDual]
  exact h.checked _ rfl (h.modifyReport r fun _ _ hrep => hrep.setDual ci y)

/-! ### Runs -/

theorem run (h : a.Represents m) (command : Command α) :
    (a.run command).answer = (m.run command).1 ∧
      (a.run command).arena.Represents (m.run command).2 := by
  cases command with
  | addVariable => exact ⟨congrArg (Except.ok ∘ Reply.newVariable) h.addVariable_eq, h.addVariable⟩
  | addVariables count =>
    obtain ⟨hanswer, hrep⟩ := h.addVariables count
    exact ⟨congrArg (Except.ok ∘ Reply.newVariables) hanswer, hrep⟩
  | addConstraint function set =>
    obtain ⟨hanswer, hrep⟩ := h.addConstraint function set
    exact ⟨congrArg (Except.map Reply.newConstraint) hanswer, hrep⟩
  | setObjective sense objective =>
    obtain ⟨hanswer, hrep⟩ := h.setObjective sense objective
    exact ⟨congrArg (Except.map fun _ => Reply.done) hanswer, hrep⟩
  | reportPrimalStatus r status =>
    exact ⟨rfl, h.modifyReport r fun _ _ hrep => { hrep with primalStatus := rfl }⟩
  | reportDualStatus r status =>
    exact ⟨rfl, h.modifyReport r fun _ _ hrep => { hrep with dualStatus := rfl }⟩
  | reportPrimal r v x =>
    obtain ⟨hanswer, hrep⟩ := h.reportPrimal r v x
    exact ⟨congrArg (Except.map fun _ => Reply.done) hanswer, hrep⟩
  | reportPrimals r values =>
    obtain ⟨hanswer, hrep⟩ := h.reportPrimals r values
    exact ⟨congrArg (Except.map fun _ => Reply.done) hanswer, hrep⟩
  | reportDual r ci y =>
    obtain ⟨hanswer, hrep⟩ := h.reportDual r ci y
    exact ⟨congrArg (Except.map fun _ => Reply.done) hanswer, hrep⟩

theorem runAll (h : a.Represents m) (commands : List (Command α)) :
    (a.runAll commands).Represents (m.runAll commands) := by
  induction commands generalizing a m with
  | nil => exact h
  | cons command commands ih => exact ih (h.run command).2

end Represents

/-- Every arena that commands can bring about lays out the store that they bring about. -/
theorem Reachable.exists_store [Zero α] {a : Arena α} (h : a.Reachable) :
    ∃ m : Store α, m.Reachable ∧ a.Represents m := by
  obtain ⟨commands, rfl⟩ := h
  exact ⟨_, ⟨commands, rfl⟩, Represents.empty.runAll commands⟩

end Arena

end DualRecovery
