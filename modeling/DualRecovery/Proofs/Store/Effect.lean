import DualRecovery.Proofs.Store.Numbering

/-! What a command does to a store, said once: it is checked, and if it is refused it changes
nothing, and if it is carried out it has an effect that does not depend on how it was checked. The
queries are said in the same terms, those of the result that a store has at a number. -/

namespace DualRecovery

variable {α : Type}

namespace Command

/-- The result of which the command reports. -/
def result? : Command α → Option ℕ
  | .reportPrimalStatus r _ | .reportDualStatus r _ | .reportPrimal r _ _ | .reportPrimals r _
  | .reportDual r _ _ => some r
  | _ => none

/-- The change of the result of which the command reports. -/
def change : Command α → Result α → Result α
  | .reportPrimalStatus _ status, result => { result with primalStatus := status }
  | .reportDualStatus _ status, result => { result with dualStatus := status }
  | .reportPrimal _ v x, result => { result with primals := result.primals.set v x }
  | .reportPrimals _ values, result =>
    { result with primals := result.primals.setAll (values.zipIdx.map fun x => (⟨x.2⟩, x.1)) }
  | .reportDual _ ci y, result => { result with duals := result.duals.set ci y }
  | _, result => result

end Command

namespace Store

/-- The store with the change that the command asks for, without a check. -/
def effect (m : Store α) (command : Command α) : Store α :=
  match command with
  | .addVariable => { m with variableCount := m.variableCount + 1 }
  | .addVariables count => { m with variableCount := m.variableCount + count }
  | .addConstraint function set => { m with constraints := m.constraints ++ [⟨function, set⟩] }
  | .setObjective sense objective => { m with sense, objective }
  | .reportPrimalStatus r _ | .reportDualStatus r _ | .reportPrimal r _ _ | .reportPrimals r _
  | .reportDual r _ _ => m.modifyResult r command.change

/-- The answer to a command that is carried out. -/
def reply (m : Store α) : Command α → Reply
  | .addVariable => .newVariable ⟨m.variableCount⟩
  | .addVariables count => .newVariables ((List.range' m.variableCount count).map VariableIndex.mk)
  | .addConstraint function set =>
    .newConstraint ⟨⟨function.kind, set.tag⟩, m.constraints.length⟩
  | _ => .done

theorem addVariables_eq (m : Store α) (count : ℕ) :
    m.addVariables count =
      ((List.range' m.variableCount count).map VariableIndex.mk,
        { m with variableCount := m.variableCount + count }) := by
  induction count generalizing m with
  | zero => rfl
  | succ count ih =>
    rw [addVariables, addVariable]
    simp only [ih, List.range'_succ, List.map_cons, Prod.mk.injEq, true_and]
    rw [Nat.add_right_comm, Nat.add_assoc]

/-- What is checked before the command is carried out. -/
def verify (m : Store α) : Command α → Except (Failure QueryError) Unit
  | .addConstraint function set => m.verifyConstraint ⟨function, set⟩
  | .setObjective _ objective => m.verifyFunction objective
  | .reportPrimal _ v _ => orError (m.verifyVariable v)
  | .reportPrimals _ values => orError (m.verifyPrimals values)
  | .reportDual _ ci y => m.verifyDual ci y
  | _ => .ok ()

theorem map_checked {β γ : Type} (m : Store α) (check : Except (Failure QueryError) Unit)
    (change : Store α → β × Store α) (f : β → γ) :
    ((m.checked check change).1.map f, (m.checked check change).2) =
      m.checked check fun m => (f (change m).1, (change m).2) := by
  cases check <;> rfl

/-- Every command is a check and then an effect. -/
theorem run_eq (m : Store α) (command : Command α) :
    m.run command = m.checked (m.verify command) fun m => (m.reply command, m.effect command) := by
  cases command with
  | addVariable | reportPrimalStatus _ _ | reportDualStatus _ _ => rfl
  | addVariables count =>
    rw [run, addVariables_eq]
    rfl
  | addConstraint function set =>
    show ((m.addConstraint function set).1.map Reply.newConstraint, _) = _
    exact m.map_checked _ _ _
  | setObjective sense objective =>
    show ((m.setObjective sense objective).1.map fun _ => Reply.done, _) = _
    exact m.map_checked _ _ _
  | reportPrimal r v x =>
    show ((m.reportPrimal r v x).1.map fun _ => Reply.done, _) = _
    exact m.map_checked _ _ _
  | reportPrimals r values =>
    show ((m.reportPrimals r values).1.map fun _ => Reply.done, _) = _
    exact m.map_checked _ _ _
  | reportDual r ci y =>
    show ((m.reportDual r ci y).1.map fun _ => Reply.done, _) = _
    exact m.map_checked _ _ _

/-- A command is refused, or it is carried out. -/
theorem run_cases (m : Store α) (command : Command α) :
    (∃ failure, m.verify command = .error failure ∧ m.run command = (.error failure, m)) ∨
      (m.verify command = .ok () ∧ m.run command = (.ok (m.reply command), m.effect command)) := by
  rw [run_eq]
  exact m.checked_cases _ _

/-! ### Results -/

/-- What was reported of a result, of which there may be no report. -/
def resultAt (m : Store α) (r : ℕ) : Result α := m.results[r]?.getD .empty

theorem resultAt_modifyResult (m : Store α) (r s : ℕ) (change : Result α → Result α) :
    (m.modifyResult r change).resultAt s =
      if s = r then change (m.resultAt r) else m.resultAt s := by
  unfold resultAt
  rw [getElem?_results_modifyResult]
  split
  · rfl
  · split
    · rfl
    · next hs =>
      rw [List.getElem?_eq_none (Nat.not_lt.mp hs)]
      split <;> rfl

/-- Only the result of which the command reports changes. -/
theorem resultAt_effect (m : Store α) (command : Command α) (r : ℕ) :
    (m.effect command).resultAt r =
      if command.result? = some r then command.change (m.resultAt r) else m.resultAt r := by
  have hreport (s : ℕ) : (m.modifyResult s command.change).resultAt r =
      if some s = some r then command.change (m.resultAt r) else m.resultAt r := by
    rw [resultAt_modifyResult]
    by_cases h : r = s
    · rw [if_pos h, if_pos (congrArg some h.symm), h]
    · rw [if_neg h, if_neg fun hs => h (Option.some.inj hs).symm]
  cases command with
  | addVariable | addVariables _ | addConstraint _ _ | setObjective _ _ => rfl
  | reportPrimalStatus s _ | reportDualStatus s _ | reportPrimal s _ _ | reportPrimals s _
  | reportDual s _ _ => exact hreport s

/-- A report of a result brings about all results up to it. -/
theorem length_results_effect (m : Store α) (command : Command α) :
    (m.effect command).results.length =
      max m.results.length (command.result?.elim 0 (· + 1)) := by
  cases command with
  | addVariable | addVariables _ | addConstraint _ _ | setObjective _ _ =>
    exact (Nat.max_zero _).symm
  | reportPrimalStatus s _ | reportDualStatus s _ | reportPrimal s _ _ | reportPrimals s _
  | reportDual s _ _ => exact m.length_results_modifyResult s _

/-! ### Queries -/

variable (m : Store α) (r : ℕ)

theorem result_eq : m.result r =
    if m.results.length ≤ r then .error (.resultOutOfBounds r m.results.length)
    else .ok (m.resultAt r) := by
  unfold result resultAt
  split
  · next h => rw [h, if_neg (Nat.not_le.mpr (List.getElem?_eq_some_iff.mp h).1)]; rfl
  · next h => rw [if_pos (List.getElem?_eq_none_iff.mp h)]

theorem primal_eq (v : VariableIndex) : m.primal v r =
    if m.variableCount ≤ v.number then .error (.invalidVariable v)
    else if m.results.length ≤ r then .error (.resultOutOfBounds r m.results.length)
    else match (m.resultAt r).primals.get? v with
      | some x => .ok x
      | none => .error (.noPrimal v) := by
  unfold primal verifyVariable
  rw [result_eq]
  by_cases hv : v.number < m.variableCount
  · rw [if_pos hv, if_neg (Nat.not_le.mpr hv)]
    by_cases hr : m.results.length ≤ r
    · rw [if_pos hr, if_pos hr]
      rfl
    · rw [if_neg hr, if_neg hr]
      rfl
  · rw [if_neg hv, if_pos (Nat.not_lt.mp hv)]
    rfl

theorem dual_eq (ci : ConstraintIndex) : m.dual ci r =
    if ci ∉ m.numbered.map (·.1) then .error (.invalidConstraint ci)
    else if m.results.length ≤ r then .error (.resultOutOfBounds r m.results.length)
    else match (m.resultAt r).duals.get? ci with
      | some y => .ok y
      | none => .error (.noDual ci) := by
  unfold dual
  rw [result_eq]
  by_cases hci : ci ∈ m.numbered.map (·.1)
  · rw [if_neg (not_not.mpr hci)]
    obtain ⟨p, hp, rfl⟩ := List.mem_map.mp hci
    rw [constraint_of_mem_numbered hp]
    by_cases hr : m.results.length ≤ r
    · rw [if_pos hr, if_pos hr]
      rfl
    · rw [if_neg hr, if_neg hr]
      rfl
  · rw [if_pos hci, constraint_of_not_mem_numbered hci]
    rfl

variable {m r} in
theorem dual_eq_ok_iff {ci : ConstraintIndex} {y : Value α} : m.dual ci r = .ok y ↔
    ci ∈ m.numbered.map (·.1) ∧ r < m.results.length ∧
      (m.resultAt r).duals.get? ci = some y := by
  rw [dual_eq]
  by_cases hci : ci ∈ m.numbered.map (·.1)
  · rw [if_neg (not_not.mpr hci), and_iff_right hci]
    by_cases hr : m.results.length ≤ r
    · rw [if_pos hr]
      exact iff_of_false (by simp) fun h => Nat.not_lt.mpr hr h.1
    · rw [if_neg hr, and_iff_right (Nat.not_le.mp hr)]
      cases (m.resultAt r).duals.get? ci <;> simp
  · rw [if_pos hci]
    exact iff_of_false (by simp) fun h => hci h.1

variable {m r} in
theorem lt_length_of_dual {ci : ConstraintIndex} {y : Value α} (h : m.dual ci r = .ok y) :
    r < m.results.length :=
  (dual_eq_ok_iff.mp h).2.1

theorem primalStatus_eq : m.primalStatus r = (m.resultAt r).primalStatus := by
  unfold primalStatus resultAt
  cases m.results[r]? <;> rfl

theorem dualStatus_eq : m.dualStatus r = (m.resultAt r).dualStatus := by
  unfold dualStatus resultAt
  cases m.results[r]? <;> rfl

end Store

end DualRecovery
