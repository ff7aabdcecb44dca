import DualRecovery.Proofs.Arena.Refinement
import DualRecovery.Proofs.Store.Effect

/-! The constraints of an arena are those that were added to it: the tables of constraints and of
families and the counter stay in step with the additions that were carried out, whatever comes
between them. -/

namespace DualRecovery

variable {α : Type}

namespace Exchange

/-- The constraint that was added, if one was, with the index in the answer. -/
def added? : Exchange α → Option (ConstraintIndex × Constraint α)
  | ⟨.addConstraint function set, .ok (.newConstraint ci), _⟩ => some (ci, ⟨function, set⟩)
  | _ => none

/-- The constraints that were added, in order, each with the index in the answer. -/
def added (exchanges : List (Exchange α)) : List (ConstraintIndex × Constraint α) :=
  exchanges.filterMap added?

theorem added?_error (command : Command α) (failure : Failure QueryError)
    (events : List (Event α)) : added? ⟨command, .error failure, events⟩ = none := by
  cases command <;> rfl

end Exchange

open Exchange

/-- A command adds at most one constraint, after all others. -/
theorem Store.numbered_run (m : Store α) (command : Command α) (events : List (Event α)) :
    (m.run command).2.numbered =
      m.numbered ++ (added? ⟨command, (m.run command).1, events⟩).toList := by
  rcases m.run_cases command with ⟨e, -, heq⟩ | ⟨-, heq⟩
  · rw [heq, added?_error]
    simp
  · rw [heq]
    cases command with
    | addConstraint function set => exact m.numbered_append ⟨function, set⟩
    | _ => exact (List.append_nil _).symm

namespace Arena

/-- What an arena answers if `added` are the constraints that were added to it, each with the index
in the answer. -/
structure Enumerates (a : Arena α) (added : List (ConstraintIndex × Constraint α)) : Prop where
  /-- The index has the kind of the function, the tag of the set, and the number of constraints that
  were added before. -/
  numbers : added.map (·.1) =
    added.zipIdx.map fun p => ⟨⟨p.1.2.function.kind, p.1.2.set.tag⟩, p.2⟩
  size : a.constraints.size = added.length
  /-- Each family once, by its first constraint. -/
  families : a.backend.families = (added.map (·.1.family)).eraseDups
  indices : ∀ family, a.backend.indices family =
    (added.map (·.1)).filter (·.family = family)
  /-- A constraint stays as it was added, whatever comes later. -/
  function : ∀ p ∈ added, ∀ later, (a.runAll later).backend.function p.1 = .ok p.2.function
  set : ∀ p ∈ added, ∀ later, (a.runAll later).backend.set p.1 = .ok p.2.set
  invalid : ∀ ci ∉ added.map (·.1),
    a.backend.function ci = .error (.invalidConstraint ci) ∧
      a.backend.set ci = .error (.invalidConstraint ci)
  fits : ∀ ci c, a.constraint ci = .ok c → c.Fits a.variableCount

variable {a : Arena α} {m : Store α}

/-- What a command adds to the constraints of an arena. -/
def additions (a : Arena α) (command : Command α) : List (ConstraintIndex × Constraint α) :=
  (added? ⟨command, (a.run command).answer, (a.run command).events⟩).toList

theorem added_transcript_cons (a : Arena α) (command : Command α) (commands : List (Command α)) :
    added (a.transcript (command :: commands)) =
      a.additions command ++ added ((a.run command).arena.transcript commands) := by
  rw [transcript_cons, added, List.filterMap_cons, additions]
  cases added? ⟨command, (a.run command).answer, (a.run command).events⟩ <;> rfl

/-- A command emits an event just if it adds a constraint. -/
theorem events_run (a : Arena α) (command : Command α) :
    (a.run command).events = (a.additions command).map (.constraintAdded ·.1) := by
  unfold additions
  cases command with
  | addVariable | addVariables _ | reportPrimalStatus _ _ | reportDualStatus _ _ => rfl
  | addConstraint function set =>
    rw [run, addConstraint]
    rcases a.checked_cases (a.outline.verifyConstraint ⟨function, set⟩)
      (·.insertConstraint ⟨function, set⟩) with ⟨failure, -, heq⟩ | ⟨-, heq⟩
    · rw [heq]
      rfl
    · rw [heq]
      rfl
  | setObjective sense objective =>
    show (a.setObjective sense objective).events = []
    unfold setObjective checked
    split <;> rfl
  | reportPrimal r v x =>
    show (a.reportPrimal r v x).events = []
    unfold reportPrimal
    split <;> rfl
  | reportPrimals r values =>
    show (a.reportPrimals r values).events = []
    unfold reportPrimals
    split <;> rfl
  | reportDual r ci y =>
    show (a.reportDual r ci y).events = []
    unfold reportDual checked
    split <;> rfl

theorem events_transcript (a : Arena α) (commands : List (Command α)) :
    (a.transcript commands).flatMap (·.events) =
      (added (a.transcript commands)).map (.constraintAdded ·.1) := by
  induction commands generalizing a with
  | nil => rfl
  | cons command commands ih =>
    rw [added_transcript_cons, List.map_append, ← events_run, ← ih]
    rfl

theorem Represents.entries_run (h : a.Represents m) (command : Command α) :
    (a.run command).arena.constraints.entries =
      a.constraints.entries ++ a.additions command := by
  obtain ⟨hanswer, hrep⟩ := h.run command
  rw [hrep.constraints, m.numbered_run, ← hanswer, h.constraints]
  rfl

theorem Represents.entries_runAll (h : a.Represents m) (commands : List (Command α)) :
    (a.runAll commands).constraints.entries =
      a.constraints.entries ++ added (a.transcript commands) := by
  induction commands generalizing a m with
  | nil => exact (List.append_nil _).symm
  | cons command commands ih =>
    rw [runAll_cons, ih (h.run command).2, h.entries_run, List.append_assoc,
      added_transcript_cons]

theorem Represents.constraint_runAll (h : a.Represents m) {p : ConstraintIndex × Constraint α}
    (hp : p ∈ m.numbered) (later : List (Command α)) :
    (a.runAll later).constraint p.1 = .ok p.2 := by
  have hlater := h.runAll later
  have hmem : p ∈ (m.runAll later).numbered := by
    rw [← hlater.constraints, h.entries_runAll, h.constraints]
    exact List.mem_append_left _ hp
  rw [hlater.constraint]
  exact Store.constraint_of_mem_numbered hmem

theorem Represents.enumerates (h : a.Represents m) (hm : m.Valid) :
    a.Enumerates m.numbered where
  numbers := by
    apply List.ext_getElem?
    intro k
    simp only [List.getElem?_map, List.getElem?_zipIdx, Store.numbered]
    cases m.constraints[k]? <;> simp [Constraint.family]
  size := by rw [Table.size, h.constraints]
  families := by
    rw [m.map_family_numbered]
    exact h.families
  indices family := by
    rw [List.filter_map]
    exact (h.indices family).trans (m.indices_eq family)
  function p hp later := by
    show ((a.runAll later).constraint p.1).map _ = _
    rw [h.constraint_runAll hp]
    rfl
  set p hp later := by
    show ((a.runAll later).constraint p.1).map _ = _
    rw [h.constraint_runAll hp]
    rfl
  invalid ci hci := by
    show (a.constraint ci).map _ = _ ∧ (a.constraint ci).map _ = _
    rw [h.constraint, Store.constraint_of_not_mem_numbered hci]
    exact ⟨rfl, rfl⟩
  fits ci c hc := by
    rw [h.constraint, Store.constraint_eq_ok_iff] at hc
    have hmem : (ci, c) ∈ m.numbered := Store.mem_numbered.mpr hc
    rw [h.variableCount]
    exact hm.fits hmem

theorem added_transcript [Zero α] (commands : List (Command α)) :
    added (transcript empty commands) = (Store.runAll Store.empty commands).numbered := by
  have hstart : (empty : Arena α).Represents Store.empty := Represents.empty
  rw [← (hstart.runAll commands).constraints, hstart.entries_runAll]
  rfl

/-- After every run from nothing, an arena holds the constraints that were added in the run, each
of which emitted one event. -/
theorem enumerates_runAll [Zero α] (commands : List (Command α)) :
    (runAll empty commands).Enumerates (added (transcript empty commands)) ∧
      (transcript empty commands).flatMap (·.events) =
        (added (transcript empty commands)).map (.constraintAdded ·.1) := by
  have hvalid : (Store.runAll Store.empty commands : Store α).Valid :=
    Store.valid_empty.runAll commands
  refine ⟨?_, events_transcript empty commands⟩
  rw [added_transcript]
  exact (Represents.empty.runAll commands).enumerates hvalid

end Arena

end DualRecovery
