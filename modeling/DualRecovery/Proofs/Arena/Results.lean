import DualRecovery.Proofs.Arena.Enumeration
import DualRecovery.Proofs.Recovery.Adjoint

/-! The results of an arena are what was reported: of every status, primal value and dual the last
report that was carried out counts, and there are as many results as were reported of. -/

namespace DualRecovery

variable {α β : Type}

/-! ### What a run reports -/

namespace Command

def primalStatus? (r : ℕ) : Command α → Option Status
  | .reportPrimalStatus s status => if s = r then some status else none
  | _ => none

def dualStatus? (r : ℕ) : Command α → Option Status
  | .reportDualStatus s status => if s = r then some status else none
  | _ => none

/-- The value that the command gives to `v`. Values for all variables give none to a variable that
is added later. -/
def primal? (r : ℕ) (v : VariableIndex) : Command α → Option α
  | .reportPrimal s w x => if s = r ∧ w = v then some x else none
  | .reportPrimals s values => if s = r then values[v.number]? else none
  | _ => none

def dual? (r : ℕ) (ci : ConstraintIndex) : Command α → Option (Value α)
  | .reportDual s cj y => if s = r ∧ cj = ci then some y else none
  | _ => none

/-- What the last of the commands reports that reports any such thing. -/
def lastReported (reported : Command α → Option β) (commands : List (Command α)) : Option β :=
  commands.reverse.findSome? reported

/-- One more than the largest result of which one of the commands reports. -/
def resultCount (commands : List (Command α)) : ℕ :=
  (commands.filterMap result?).max?.elim 0 (· + 1)

theorem lastReported_cons (reported : Command α → Option β) (command : Command α)
    (commands : List (Command α)) :
    lastReported reported (command :: commands) =
      (lastReported reported commands).or (reported command) := by
  unfold lastReported
  rw [List.reverse_cons, List.findSome?_append]
  cases h : reported command <;> simp [h]

theorem resultCount_cons (command : Command α) (commands : List (Command α)) :
    resultCount (command :: commands) =
      max (command.result?.elim 0 (· + 1)) (resultCount commands) := by
  unfold resultCount
  rw [List.filterMap_cons]
  cases command.result? with
  | none => simp
  | some r =>
    simp only [List.max?_cons, Option.elim_some]
    cases (commands.filterMap result?).max? with
    | none => simp
    | some s => simp

end Command

open Command

namespace Exchange

/-- The command, if it was carried out. -/
def accepted? (exchange : Exchange α) : Option (Command α) :=
  match exchange.answer with
  | .ok _ => some exchange.command
  | .error _ => none

/-- The commands that were carried out, in order. -/
def accepted (exchanges : List (Exchange α)) : List (Command α) := exchanges.filterMap accepted?

variable (command : Command α) (events : List (Event α)) (exchanges : List (Exchange α))

theorem accepted_cons_error (failure : Failure QueryError) :
    accepted (⟨command, .error failure, events⟩ :: exchanges) = accepted exchanges := rfl

theorem accepted_cons_ok (reply : Reply) :
    accepted (⟨command, .ok reply, events⟩ :: exchanges) = command :: accepted exchanges := rfl

end Exchange

open Exchange

/-! ### What one command changes -/

namespace Store

variable (m : Store α) (command : Command α) (r : ℕ)

theorem primalStatus_effect :
    some ((m.effect command).resultAt r).primalStatus =
      (command.primalStatus? r).or (some (m.resultAt r).primalStatus) := by
  rw [resultAt_effect]
  cases command <;> simp [result?, change, primalStatus?] <;> split <;> rfl

theorem dualStatus_effect :
    some ((m.effect command).resultAt r).dualStatus =
      (command.dualStatus? r).or (some (m.resultAt r).dualStatus) := by
  rw [resultAt_effect]
  cases command <;> simp [result?, change, dualStatus?] <;> split <;> rfl

theorem primals_effect (v : VariableIndex) :
    ((m.effect command).resultAt r).primals.get? v =
      (command.primal? r v).or ((m.resultAt r).primals.get? v) := by
  rw [resultAt_effect]
  cases command with
  | reportPrimal s w x =>
    by_cases hr : s = r
    · by_cases hv : w = v <;>
        simp [result?, change, primal?, Assignment.get?_set, hr, hv, Ne.symm]
    · simp [result?, primal?, hr]
  | reportPrimals s values =>
    by_cases hr : s = r <;>
      simp [result?, change, primal?, Assignment.get?_setAll_zipIdx, hr]
  | _ => simp [result?, change, primal?] <;> split <;> rfl

theorem duals_effect (ci : ConstraintIndex) :
    ((m.effect command).resultAt r).duals.get? ci =
      (command.dual? r ci).or ((m.resultAt r).duals.get? ci) := by
  rw [resultAt_effect]
  cases command with
  | reportDual s cj y =>
    by_cases hr : s = r
    · by_cases hci : cj = ci <;>
        simp [result?, change, dual?, Assignment.get?_set, hr, hci, Ne.symm]
    · simp [result?, dual?, hr]
  | _ => simp [result?, change, dual?] <;> split <;> rfl

end Store

namespace Arena

variable {a : Arena α} {m : Store α}

/-! ### What a run leaves -/

/-- If `reported` is what a command writes to a part of a store, the last report that a run carries
out is what it leaves there. -/
theorem Represents.part_runAll (h : a.Represents m) (part : Store α → Option β)
    {reported : Command α → Option β}
    (heffect : ∀ m command, part (m.effect command) = (reported command).or (part m))
    (commands : List (Command α)) :
    part (m.runAll commands) =
      (lastReported reported (accepted (a.transcript commands))).or (part m) := by
  induction commands generalizing a m with
  | nil => rfl
  | cons command commands ih =>
    have hrun := h.run command
    show part ((m.run command).2.runAll commands) = _
    rw [ih hrun.2, transcript_cons, hrun.1]
    rcases m.run_cases command with ⟨e, -, heq⟩ | ⟨-, heq⟩
    · rw [heq, accepted_cons_error]
    · rw [heq, accepted_cons_ok, heffect, ← Option.or_assoc, ← lastReported_cons]

theorem Represents.length_results_runAll (h : a.Represents m) (commands : List (Command α)) :
    (m.runAll commands).results.length =
      max m.results.length (resultCount (accepted (a.transcript commands))) := by
  induction commands generalizing a m with
  | nil => exact (Nat.max_zero _).symm
  | cons command commands ih =>
    have hrun := h.run command
    show ((m.run command).2.runAll commands).results.length = _
    rw [ih hrun.2, transcript_cons, hrun.1]
    rcases m.run_cases command with ⟨e, -, heq⟩ | ⟨-, heq⟩
    · rw [heq, accepted_cons_error]
    · rw [heq, accepted_cons_ok, m.length_results_effect, Nat.max_assoc, ← resultCount_cons]

/-- What an arena answers if `added` are the constraints that were added to it, each with its index,
and `accepted` the commands that were carried out. -/
structure Recalls (a : Arena α) (added : List (ConstraintIndex × Constraint α))
    (accepted : List (Command α)) : Prop where
  count : a.reports.length = resultCount accepted
  primal : ∀ v r, a.backend.primal v r =
    if a.variableCount ≤ v.number then .error (.invalidVariable v)
    else if a.reports.length ≤ r then .error (.resultOutOfBounds r a.reports.length)
    else match lastReported (primal? r v) accepted with
      | some x => .ok x
      | none => .error (.noPrimal v)
  dual : ∀ ci r, a.backend.dual ci r =
    if ci ∉ added.map (·.1) then .error (.invalidConstraint ci)
    else if a.reports.length ≤ r then .error (.resultOutOfBounds r a.reports.length)
    else match lastReported (dual? r ci) accepted with
      | some y => .ok y
      | none => .error (.noDual ci)
  primalStatus : ∀ r, a.backend.primalStatus r =
    (lastReported (primalStatus? r) accepted).getD .noSolution
  dualStatus : ∀ r, a.backend.dualStatus r =
    (lastReported (dualStatus? r) accepted).getD .noSolution
  /-- A dual has the shape of its constraint. -/
  shape : ∀ ci r y, a.backend.dual ci r = .ok y → ∃ c, (ci, c) ∈ added ∧
    ((c.function.kind.isScalar = true ∧ ∃ x, y = .scalar x) ∨
      (c.function.kind.isScalar = false ∧ ∃ ys, y = .vector ys ∧ ys.length = c.set.dimension))
  /-- Values for all variables are accepted if there is one for each variable. -/
  primals : ∀ r values, (a.run (.reportPrimals r values)).answer =
    if values.length = a.variableCount then .ok .done
    else .error (.error (.dimensionMismatch a.variableCount values.length))

variable [Zero α] (commands : List (Command α))

/-- A part that is missing in the beginning is what was last reported of it. -/
theorem part_runAll_empty (part : Store α → Option β) {reported : Command α → Option β}
    (heffect : ∀ m command, part (m.effect command) = (reported command).or (part m))
    (hempty : part Store.empty = none) :
    part (Store.runAll Store.empty commands) =
      lastReported reported (accepted (transcript empty commands)) := by
  rw [Represents.empty.part_runAll part heffect, hempty, Option.or_none]

/-- A part with a value in the beginning keeps it until something else is reported of it. -/
theorem part_runAll_empty_getD (part : Store α → β) {reported : Command α → Option β}
    (heffect : ∀ m command,
      some (part (m.effect command)) = (reported command).or (some (part m))) :
    part (Store.runAll Store.empty commands) =
      (lastReported reported (accepted (transcript empty commands))).getD (part Store.empty) := by
  have hpart := Represents.empty.part_runAll (fun m => some (part m)) heffect commands
  rw [Option.or_some] at hpart
  exact Option.some.inj hpart

theorem recalls_numbered :
    (runAll empty commands).Recalls (Store.runAll Store.empty commands).numbered
      (accepted (transcript empty commands)) where
  count := by
    have hstart : (empty : Arena α).Represents Store.empty := Represents.empty
    rw [(hstart.runAll commands).count, hstart.length_results_runAll]
    exact Nat.zero_max _
  primal v r := by
    have hrep := Represents.empty.runAll commands
    have hlast := part_runAll_empty commands (fun m => (m.resultAt r).primals.get? v)
      (fun m command => m.primals_effect command r v) rfl
    have hprimal := (Store.runAll Store.empty commands).primal_eq r v
    rw [← hrep.variableCount, ← hrep.count, hlast] at hprimal
    exact (hrep.primal v r).trans hprimal
  dual ci r := by
    have hrep := Represents.empty.runAll commands
    have hlast := part_runAll_empty commands (fun m => (m.resultAt r).duals.get? ci)
      (fun m command => m.duals_effect command r ci) rfl
    have hdual := (Store.runAll Store.empty commands).dual_eq r ci
    rw [← hrep.count, hlast] at hdual
    exact (hrep.dual ci r).trans hdual
  primalStatus r := by
    show primalStatus _ r = _
    rw [(Represents.empty.runAll commands).primalStatus, Store.primalStatus_eq]
    exact part_runAll_empty_getD commands (fun m => (m.resultAt r).primalStatus)
      fun m command => m.primalStatus_effect command r
  dualStatus r := by
    show dualStatus _ r = _
    rw [(Represents.empty.runAll commands).dualStatus, Store.dualStatus_eq]
    exact part_runAll_empty_getD commands (fun m => (m.resultAt r).dualStatus)
      fun m command => m.dualStatus_effect command r
  shape ci r y hy := by
    have hvalid : (Store.runAll Store.empty commands : Store α).Valid :=
      Store.valid_empty.runAll commands
    replace hy : dual _ ci r = .ok y := hy
    rw [(Represents.empty.runAll commands).dual] at hy
    obtain ⟨c, hc, -⟩ := bind_eq_ok.mp hy
    have hmem : (ci, c) ∈ (Store.runAll Store.empty commands).numbered :=
      Store.mem_numbered.mpr (Store.constraint_eq_ok_iff.mp hc)
    have hadmits : c.admits y = true := hvalid.admits_of_dual hmem hy
    refine ⟨c, hmem, ?_⟩
    cases y with
    | scalar x => exact Or.inl ⟨hadmits, x, rfl⟩
    | vector ys =>
      right
      simpa [Constraint.admits] using hadmits
  primals r values := by
    show (reportPrimals _ r values).answer.map _ = _
    unfold reportPrimals
    split <;> rfl

/-- After every run from nothing, an arena recalls the last reports of the run. -/
theorem recalls_runAll :
    (runAll empty commands).Recalls (added (transcript empty commands))
      (accepted (transcript empty commands)) := by
  rw [added_transcript]
  exact recalls_numbered commands

end Arena

end DualRecovery
