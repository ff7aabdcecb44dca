import DualRecovery.Proofs.Store.Effect

/-! Validity is all that commands ensure: for every valid store there is a store that commands bring
about and that answers alike. First the variables are added, then the constraints, then the
objective is set, and then what was reported is reported, one result after the other. -/

namespace DualRecovery

/-! ### Assignments with given values -/

namespace Assignment

variable {κ β : Type} [DecidableEq κ]

/-- The pairs of keys with their values, of which there may be none. -/
def pairs (keys : List κ) (value? : κ → Option β) : List (κ × β) :=
  keys.filterMap fun k => (value? k).map (k, ·)

def ofValues (keys : List κ) (value? : κ → Option β) : Assignment κ β :=
  empty.setAll (pairs keys value?)

omit [DecidableEq κ] in
theorem mem_pairs {keys : List κ} {value? : κ → Option β} {e : κ × β} :
    e ∈ pairs keys value? ↔ e.1 ∈ keys ∧ value? e.1 = some e.2 := by
  obtain ⟨k, b⟩ := e
  constructor
  · intro h
    obtain ⟨j, hj, he⟩ := List.mem_filterMap.mp h
    obtain ⟨b', hb', heq⟩ := Option.map_eq_some_iff.mp he
    cases heq
    exact ⟨hj, hb'⟩
  · rintro ⟨hk, hb⟩
    exact List.mem_filterMap.mpr ⟨k, hk, Option.map_eq_some_iff.mpr ⟨b, hb, rfl⟩⟩

theorem get?_setAll_pairs (a : Assignment κ β) (keys : List κ) (value? : κ → Option β) (k : κ) :
    (a.setAll (pairs keys value?)).get? k =
      if k ∈ keys then (value? k).or (a.get? k) else a.get? k := by
  induction keys generalizing a with
  | nil => rfl
  | cons j keys ih =>
    cases hj : value? j with
    | none =>
      have hpairs : pairs (j :: keys) value? = pairs keys value? := by simp [pairs, hj]
      rw [hpairs, ih]
      by_cases hk : k = j
      · simp [hk, hj]
      · simp [hk]
    | some b =>
      have hpairs : pairs (j :: keys) value? = (j, b) :: pairs keys value? := by simp [pairs, hj]
      have hstep : a.setAll ((j, b) :: pairs keys value?) =
          (a.set j b).setAll (pairs keys value?) := rfl
      rw [hpairs, hstep, ih, get?_set]
      by_cases hk : k = j
      · simp [hk, hj]
      · simp [hk]

theorem get?_ofValues (keys : List κ) (value? : κ → Option β) (k : κ) :
    (ofValues keys value?).get? k = if k ∈ keys then value? k else none := by
  rw [ofValues, get?_setAll_pairs, get?_empty, Option.or_none]

theorem ofValues_eq_empty {keys : List κ} {value? : κ → Option β} (h : ∀ k, value? k = none) :
    ofValues keys value? = empty := by
  have hpairs : pairs keys value? = [] :=
    List.filterMap_eq_nil_iff.mpr fun k _ => Option.map_eq_none_iff.mpr (h k)
  rw [ofValues, hpairs]
  rfl

end Assignment

variable {α : Type}

/-! ### Commands that are carried out -/

namespace Store

/-- What a command needs to be carried out. -/
def Accepts (m : Store α) : Command α → Prop
  | .addConstraint function set => Constraint.Fits ⟨function, set⟩ m.variableCount
  | .setObjective _ objective => objective.Fits m.variableCount
  | .reportPrimal _ v _ => v.number < m.variableCount
  | .reportPrimals _ values => values.length = m.variableCount
  | .reportDual _ ci y => ∃ c, m.constraint? ci = some c ∧ c.Fits m.variableCount ∧
    c.admits y = true
  | _ => True

theorem verify_eq_ok_of_accepts {m : Store α} {command : Command α} (h : m.Accepts command) :
    m.verify command = .ok () := by
  cases command with
  | addVariable | addVariables _ | reportPrimalStatus _ _ | reportDualStatus _ _ => rfl
  | addConstraint function set => exact verifyConstraint_eq_ok_iff.mpr h
  | setObjective sense objective => exact verifyFunction_eq_ok_iff.mpr h
  | reportPrimal r v x => exact orError_eq_ok.mpr (verifyVariable_eq_ok_iff.mpr h)
  | reportPrimals r values =>
    have hcheck : m.verifyPrimals values = .ok () := if_pos h
    exact orError_eq_ok.mpr hcheck
  | reportDual r ci y =>
    obtain ⟨c, hc, hfits, hy⟩ := h
    exact verifyDual_of_fits (constraint_eq_ok_iff.mpr hc) hfits hy

theorem run_of_accepts {m : Store α} {command : Command α} (h : m.Accepts command) :
    m.run command = (.ok (m.reply command), m.effect command) := by
  rw [run_eq, verify_eq_ok_of_accepts h]
  rfl

/-! ### Stores that commands bring about -/

section

variable [Zero α] {m : Store α}

theorem reachable_empty : (empty : Store α).Reachable := ⟨[], rfl⟩

theorem Reachable.effect (hm : m.Reachable) (command : Command α) (h : m.Accepts command) :
    (m.effect command).Reachable := by
  obtain ⟨commands, rfl⟩ := hm
  refine ⟨commands ++ [command], ?_⟩
  have hlast : runAll empty (commands ++ [command]) =
      ((runAll empty commands : Store α).run command).2 := List.foldl_append
  rw [hlast, run_of_accepts h]

/-- A store can have any constraints that fit its variables. -/
theorem reachable_constraints (n : ℕ) {cs : List (Constraint α)} (h : ∀ c ∈ cs, c.Fits n) :
    ({ (empty : Store α) with variableCount := n, constraints := cs } : Store α).Reachable := by
  induction cs using List.reverseRecOn with
  | nil =>
    have hvariables : ((empty : Store α).effect (.addVariables n)).Reachable :=
      reachable_empty.effect _ trivial
    have hcount : (empty : Store α).variableCount + n = n := Nat.zero_add n
    rwa [Store.effect, hcount] at hvariables
  | append_singleton cs c ih =>
    have hcs := ih fun c' hc' => h c' (List.mem_append_left _ hc')
    have hc : c.Fits n := h c (List.mem_append_right _ (List.mem_singleton_self c))
    exact hcs.effect (.addConstraint c.function c.set) hc

/-- Before anything is reported, a valid store is one that commands bring about. -/
theorem Valid.reachable_unreported (hm : m.Valid) :
    ({ m with results := [] } : Store α).Reachable :=
  (reachable_constraints m.variableCount hm.constraints).effect
    (.setObjective m.sense m.objective) hm.objective

end

/-! ### Reports -/

/-- A result after several reports of it. -/
def changes (commands : List (Command α)) (result : Result α) : Result α :=
  commands.foldl (fun result command => command.change result) result

theorem modify_concat {β : Type} (xs : List β) (x : β) (change : β → β) :
    (xs ++ [x]).modify xs.length change = xs ++ [change x] := by
  simp [List.modify_eq_take_drop]

section

variable {m : Store α} {results : List (Result α)} {result : Result α} {command : Command α}

theorem effect_report {r : ℕ} (h : command.result? = some r) :
    m.effect command = m.modifyResult r command.change := by
  cases command with
  | addVariable | addVariables _ | addConstraint _ _ | setObjective _ _ => cases h
  | reportPrimalStatus _ _ | reportDualStatus _ _ | reportPrimal _ _ _ | reportPrimals _ _
  | reportDual _ _ _ =>
    obtain rfl := Option.some.inj h
    rfl

/-- The first report of a result brings it about. -/
theorem effect_of_new (h : command.result? = some results.length) :
    ({ m with results } : Store α).effect command =
      { m with results := results ++ [command.change .empty] } := by
  rw [effect_report h]
  simp only [modifyResult, Nat.add_sub_cancel_left, List.replicate_one, modify_concat]

/-- A report of the last result changes it. -/
theorem effect_of_last (h : command.result? = some results.length) :
    ({ m with results := results ++ [result] } : Store α).effect command =
      { m with results := results ++ [command.change result] } := by
  rw [effect_report h]
  simp only [modifyResult, List.length_append, List.length_singleton, Nat.sub_self,
    List.replicate_zero, List.append_nil, modify_concat]

/-- Whether a command is carried out does not depend on what was reported. -/
theorem accepts_iff : ({ m with results } : Store α).Accepts command ↔ m.Accepts command := by
  cases command <;> exact Iff.rfl

theorem Reachable.reports [Zero α]
    (hm : ({ m with results := results ++ [result] } : Store α).Reachable)
    {commands : List (Command α)}
    (h : ∀ command ∈ commands, command.result? = some results.length ∧ m.Accepts command) :
    ({ m with results := results ++ [changes commands result] } : Store α).Reachable := by
  induction commands generalizing result with
  | nil => exact hm
  | cons command commands ih =>
    obtain ⟨⟨hresult, haccepts⟩, h⟩ := List.forall_mem_cons.mp h
    have hnext := hm.effect command (accepts_iff.mpr haccepts)
    rw [effect_of_last hresult] at hnext
    exact ih hnext h

end

/-- The commands that report a result anew, after its primal status. -/
def reports (m : Store α) (r : ℕ) (result : Result α) : List (Command α) :=
  .reportDualStatus r result.dualStatus ::
    ((Assignment.pairs ((List.range m.variableCount).map .mk) result.primals.get?).map
        (fun e => .reportPrimal r e.1 e.2) ++
      (Assignment.pairs (m.numbered.map (·.1)) result.duals.get?).map
        fun e => .reportDual r e.1 e.2)

/-- The result with values in the order of variables and constraints. -/
def tidy (m : Store α) (result : Result α) : Result α :=
  { result with
    primals := .ofValues ((List.range m.variableCount).map .mk) result.primals.get?
    duals := .ofValues (m.numbered.map (·.1)) result.duals.get? }

def tidied (m : Store α) : Store α := { m with results := m.results.map m.tidy }

theorem changes_reportPrimal (r : ℕ) (entries : List (VariableIndex × α)) (result : Result α) :
    changes (entries.map fun e => .reportPrimal r e.1 e.2) result =
      { result with primals := result.primals.setAll entries } := by
  induction entries generalizing result with
  | nil => rfl
  | cons e entries ih => exact ih _

theorem changes_reportDual (r : ℕ) (entries : List (ConstraintIndex × Value α))
    (result : Result α) :
    changes (entries.map fun e => .reportDual r e.1 e.2) result =
      { result with duals := result.duals.setAll entries } := by
  induction entries generalizing result with
  | nil => rfl
  | cons e entries ih => exact ih _

theorem changes_reports (m : Store α) (r : ℕ) (result : Result α) :
    changes (m.reports r result)
      ((Command.reportPrimalStatus r result.primalStatus).change .empty) = m.tidy result := by
  rw [reports, changes, List.foldl_cons, List.foldl_append]
  show changes _ (changes _ _) = _
  rw [changes_reportPrimal, changes_reportDual]
  rfl

theorem Valid.accepts_reports {m : Store α} (hm : m.Valid) {r : ℕ} {result : Result α}
    (hduals : ∀ ci y, result.duals.get? ci = some y →
      ∃ c, m.constraint? ci = some c ∧ c.admits y = true) :
    ∀ command ∈ m.reports r result, command.result? = some r ∧ m.Accepts command := by
  intro command hcommand
  rcases List.mem_cons.mp hcommand with rfl | hcommand
  · exact ⟨rfl, trivial⟩
  · rcases List.mem_append.mp hcommand with hprimal | hdual
    · obtain ⟨e, he, rfl⟩ := List.mem_map.mp hprimal
      obtain ⟨i, hi, hv⟩ := List.mem_map.mp (Assignment.mem_pairs.mp he).1
      refine ⟨rfl, ?_⟩
      show e.1.number < m.variableCount
      rw [← hv]
      exact List.mem_range.mp hi
    · obtain ⟨e, he, rfl⟩ := List.mem_map.mp hdual
      obtain ⟨c, hc, hadmits⟩ := hduals e.1 e.2 (Assignment.mem_pairs.mp he).2
      have hmem : (e.1, c) ∈ m.numbered := mem_numbered.mpr hc
      exact ⟨rfl, c, hc, hm.fits hmem, hadmits⟩

/-- A valid store, once tidied up, is one that commands bring about. -/
theorem Valid.reachable_tidied [Zero α] {m : Store α} (hm : m.Valid) : m.tidied.Reachable := by
  suffices h : ∀ results : List (Result α), (∀ result ∈ results, result ∈ m.results) →
      ({ m with results := results.map m.tidy } : Store α).Reachable from h m.results fun _ => id
  intro results hresults
  induction results using List.reverseRecOn with
  | nil => exact hm.reachable_unreported
  | append_singleton results result ih =>
    have hprevious := ih fun result' h => hresults result' (List.mem_append_left _ h)
    have hmem := hresults result (List.mem_append_right _ (List.mem_singleton_self result))
    have hnew := hprevious.effect
      (.reportPrimalStatus (results.map m.tidy).length result.primalStatus) trivial
    rw [effect_of_new rfl] at hnew
    have hlast := hnew.reports (hm.accepts_reports (hm.duals result hmem))
    rw [changes_reports] at hlast
    rw [List.map_append]
    exact hlast

/-! ### Answers -/

theorem mem_variables {m : Store α} {v : VariableIndex} :
    v ∈ (List.range m.variableCount).map VariableIndex.mk ↔ v.number < m.variableCount := by
  constructor
  · intro h
    obtain ⟨i, hi, rfl⟩ := List.mem_map.mp h
    exact List.mem_range.mp hi
  · exact fun h => List.mem_map.mpr ⟨v.number, List.mem_range.mpr h, rfl⟩

theorem tidy_empty (m : Store α) : m.tidy .empty = .empty := by
  have hprimals : (m.tidy .empty).primals = .empty := Assignment.ofValues_eq_empty fun _ => rfl
  have hduals : (m.tidy .empty).duals = .empty := Assignment.ofValues_eq_empty fun _ => rfl
  exact congrArg₂ (Result.mk .noSolution .noSolution) hprimals hduals

/-- A change of all results that leaves an empty one as it is also changes those that there are
not. -/
theorem resultAt_of_map {m m' : Store α} {change : Result α → Result α}
    (h : m'.results = m.results.map change) (hempty : change .empty = .empty) (r : ℕ) :
    m'.resultAt r = change (m.resultAt r) := by
  unfold resultAt
  rw [h, List.getElem?_map]
  cases m.results[r]? with
  | none => exact hempty.symm
  | some result => rfl

theorem resultAt_tidied (m : Store α) (r : ℕ) : m.tidied.resultAt r = m.tidy (m.resultAt r) :=
  resultAt_of_map rfl m.tidy_empty r

theorem get?_primals_tidy {m : Store α} {result : Result α} {v : VariableIndex}
    (hv : v.number < m.variableCount) : (m.tidy result).primals.get? v = result.primals.get? v :=
  (Assignment.get?_ofValues _ _ v).trans (if_pos (mem_variables.mpr hv))

theorem get?_duals_tidy {m : Store α} {result : Result α} {ci : ConstraintIndex}
    (hci : ci ∈ m.numbered.map (·.1)) : (m.tidy result).duals.get? ci = result.duals.get? ci :=
  (Assignment.get?_ofValues _ _ ci).trans (if_pos hci)

/-- The order of the values is not seen. -/
theorem backend_tidied (m : Store α) : m.tidied.backend = m.backend := by
  have hcount : m.tidied.results.length = m.results.length := List.length_map _
  have hvariables : m.tidied.variableCount = m.variableCount := rfl
  have hnumbered : m.tidied.numbered = m.numbered := rfl
  have hprimal : m.tidied.primal = m.primal := by
    funext v r
    rw [primal_eq, primal_eq, resultAt_tidied, hcount, hvariables]
    by_cases hv : v.number < m.variableCount
    · rw [get?_primals_tidy hv]
    · rw [if_pos (Nat.not_lt.mp hv), if_pos (Nat.not_lt.mp hv)]
  have hdual : m.tidied.dual = m.dual := by
    funext ci r
    rw [dual_eq, dual_eq, resultAt_tidied, hcount, hnumbered]
    by_cases hci : ci ∈ m.numbered.map (·.1)
    · rw [get?_duals_tidy hci]
    · rw [if_pos hci, if_pos hci]
  have hprimalStatus : m.tidied.primalStatus = m.primalStatus := by
    funext r
    rw [primalStatus_eq, primalStatus_eq, resultAt_tidied]
    rfl
  have hdualStatus : m.tidied.dualStatus = m.dualStatus := by
    funext r
    rw [dualStatus_eq, dualStatus_eq, resultAt_tidied]
    rfl
  rw [backend, backend, hprimal, hdual, hprimalStatus, hdualStatus]
  rfl

/-- Every valid store answers as one that commands bring about. -/
theorem Valid.exists_reachable [Zero α] {m : Store α} (hm : m.Valid) :
    ∃ m' : Store α, m'.Reachable ∧ m'.numbered = m.numbered ∧
      m'.results.length = m.results.length ∧ m'.backend = m.backend :=
  ⟨m.tidied, hm.reachable_tidied, rfl, List.length_map _, m.backend_tidied⟩

end Store

end DualRecovery
