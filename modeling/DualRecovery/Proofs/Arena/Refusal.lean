import DualRecovery.Proofs.Arena.Results

/-! A command that is refused, with an error or for a fault, leaves an arena exactly as it was and
emits nothing. A run therefore ends as the commands end that it carries out, and these are answered
as they are without the others. -/

namespace DualRecovery

variable {α β γ : Type}

namespace Exchange

def isAccepted (exchange : Exchange α) : Bool := exchange.accepted?.isSome

end Exchange

open Exchange

namespace Arena

variable {a : Arena α} {command : Command α} {failure : Failure QueryError}

/-! ### One command -/

/-- If a change of `a` fails, `a` is left as it is, and nothing is emitted. -/
def KeepsOnFailure (a : Arena α) (outcome : Outcome α β) : Prop :=
  ∀ failure, outcome.answer = .error failure → outcome.arena = a ∧ outcome.events = []

theorem KeepsOnFailure.map {outcome : Outcome α β} (h : a.KeepsOnFailure outcome) (f : β → γ) :
    a.KeepsOnFailure (outcome.map f) := by
  obtain ⟨answer, after, events⟩ := outcome
  intro failure hfailure
  cases answer with
  | error failure' => exact h failure' rfl
  | ok b => cases hfailure

theorem refuse_keepsOnFailure (a : Arena α) (failure : Failure QueryError) :
    a.KeepsOnFailure (a.refuse failure : Outcome α β) := fun _ _ => ⟨rfl, rfl⟩

/-- A change that comes after a check, and does not fail itself. -/
theorem checked_keepsOnFailure (a : Arena α) (check : Except (Failure QueryError) Unit)
    {change : Arena α → Outcome α β} {b : β} (hchange : (change a).answer = .ok b) :
    a.KeepsOnFailure (a.checked check change) := by
  rcases a.checked_cases check change with ⟨failure, -, heq⟩ | ⟨-, heq⟩
  · rw [heq]
    exact a.refuse_keepsOnFailure failure
  · rw [heq]
    intro failure h
    rw [hchange] at h
    cases h

/-- A change for which something has to hold. -/
theorem guarded_keepsOnFailure (a : Arena α) {P : Prop} [Decidable P] (b : β) (after : P → Arena α)
    (events : List (Event α)) (failure : Failure QueryError) :
    a.KeepsOnFailure (if h : P then ⟨.ok b, after h, events⟩ else a.refuse failure) := by
  by_cases hP : P
  · rw [dif_pos hP]
    exact fun failure h => by cases h
  · rw [dif_neg hP]
    exact a.refuse_keepsOnFailure failure

theorem addConstraint_keepsOnFailure (a : Arena α) (function : ModelFunction α)
    (set : ConstraintSet α) : a.KeepsOnFailure (a.addConstraint function set) :=
  a.checked_keepsOnFailure (a.outline.verifyConstraint ⟨function, set⟩) rfl

theorem setObjective_keepsOnFailure (a : Arena α) (sense : Sense) (objective : ModelFunction α) :
    a.KeepsOnFailure (a.setObjective sense objective) :=
  a.checked_keepsOnFailure (a.outline.verifyFunction objective) rfl

theorem reportPrimal_keepsOnFailure (a : Arena α) (r : ℕ) (v : VariableIndex) (x : α) :
    a.KeepsOnFailure (a.reportPrimal r v x) :=
  a.guarded_keepsOnFailure () _ [] (.error (.invalidVariable v))

theorem reportPrimals_keepsOnFailure (a : Arena α) (r : ℕ) (values : List α) :
    a.KeepsOnFailure (a.reportPrimals r values) :=
  a.guarded_keepsOnFailure () _ [] (.error (.dimensionMismatch a.variableCount values.length))

theorem reportDual_keepsOnFailure (a : Arena α) (r : ℕ) (ci : ConstraintIndex) (y : Value α) :
    a.KeepsOnFailure (a.reportDual r ci y) :=
  a.checked_keepsOnFailure (a.verifyDual ci y) rfl

theorem run_keepsOnFailure (a : Arena α) (command : Command α) :
    a.KeepsOnFailure (a.run command) := by
  cases command with
  | addVariable | addVariables _ | reportPrimalStatus _ _ | reportDualStatus _ _ =>
    intro failure h
    cases h
  | addConstraint function set => exact (a.addConstraint_keepsOnFailure function set).map _
  | setObjective sense objective => exact (a.setObjective_keepsOnFailure sense objective).map _
  | reportPrimal r v x => exact (a.reportPrimal_keepsOnFailure r v x).map _
  | reportPrimals r values => exact (a.reportPrimals_keepsOnFailure r values).map _
  | reportDual r ci y => exact (a.reportDual_keepsOnFailure r ci y).map _

/-- An objective that is accepted comes in place of the old one, and the rest of the arena stays. -/
theorem run_setObjective_of_ok {sense : Sense} {objective : ModelFunction α} {reply : Reply}
    (h : (a.run (.setObjective sense objective)).answer = .ok reply) :
    (a.run (.setObjective sense objective)).arena = { a with sense, objective } := by
  rw [run, setObjective] at h ⊢
  rcases a.checked_cases (a.outline.verifyFunction objective)
    (fun a => ⟨.ok (), { a with sense, objective }, []⟩) with ⟨failure, -, heq⟩ | ⟨-, heq⟩
  · rw [heq] at h
    cases h
  · rw [heq]
    rfl

/-! ### Runs -/

/-- A run goes on after a refusal as if it began there. -/
theorem runAll_cons_of_error (h : (a.run command).answer = .error failure)
    (later : List (Command α)) :
    a.runAll (command :: later) = a.runAll later ∧
      a.transcript (command :: later) = ⟨command, .error failure, []⟩ :: a.transcript later := by
  obtain ⟨hkeeps, hevents⟩ := a.run_keepsOnFailure command failure h
  constructor
  · rw [runAll_cons, hkeeps]
  · rw [transcript_cons, h, hkeeps, hevents]

theorem runAll_accepted (a : Arena α) (commands : List (Command α)) :
    a.runAll (accepted (a.transcript commands)) = a.runAll commands ∧
      a.transcript (accepted (a.transcript commands)) =
        (a.transcript commands).filter isAccepted := by
  induction commands generalizing a with
  | nil => exact ⟨rfl, rfl⟩
  | cons command commands ih =>
    cases hanswer : (a.run command).answer with
    | error failure =>
      obtain ⟨hall, htranscript⟩ := runAll_cons_of_error hanswer commands
      rw [hall, htranscript, accepted_cons_error]
      exact ih a
    | ok reply =>
      obtain ⟨hall, htranscript⟩ := ih (a.run command).arena
      rw [transcript_cons, hanswer, accepted_cons_ok, transcript_cons, hanswer, htranscript]
      exact ⟨hall, rfl⟩

/-- A refusal has no effect, at once or later: the arena and all that a run goes on to do are as
they would be without the command. -/
theorem refusal_no_effect (a : Arena α) :
    (∀ command failure, (a.run command).answer = .error failure →
      (a.run command).arena = a ∧ (a.run command).events = [] ∧
      ∀ later, a.runAll (command :: later) = a.runAll later ∧
        a.transcript (command :: later) =
          ⟨command, .error failure, []⟩ :: a.transcript later) ∧
    (∀ commands, a.runAll commands = a.runAll (accepted (a.transcript commands)) ∧
      a.transcript (accepted (a.transcript commands)) =
        (a.transcript commands).filter isAccepted) ∧
    (∀ sense objective reply, (a.run (.setObjective sense objective)).answer = .ok reply →
      (a.run (.setObjective sense objective)).arena = { a with sense, objective }) := by
  refine ⟨fun command failure h => ?_, fun commands => ?_, fun sense objective reply h => ?_⟩
  · obtain ⟨hkeeps, hevents⟩ := a.run_keepsOnFailure command failure h
    exact ⟨hkeeps, hevents, runAll_cons_of_error h⟩
  · obtain ⟨hall, htranscript⟩ := a.runAll_accepted commands
    exact ⟨hall.symm, htranscript⟩
  · exact run_setObjective_of_ok h

/-- Six of these are refused: a row and a variable that there are not, a set of another shape than
the function, and reports of results that there are not yet. -/
def withRefusals : List (Command ℚ) :=
  [.addVariables 2, .addConstraint (.singleVariable ⟨0⟩) (.greaterThan 1),
    .addConstraint (.vectorAffine ⟨[⟨3, ⟨1, ⟨0⟩⟩⟩], [0, 0]⟩) (.nonnegativeCone 2),
    .addConstraint (.vectorOfVariables [⟨0⟩, ⟨1⟩]) (.lessThan 4),
    .setObjective .maximize (.scalarAffine ⟨[⟨5, ⟨2⟩⟩], 0⟩),
    .reportPrimal 4 ⟨2⟩ 1, .reportPrimals 3 [1],
    .reportDual 2 ⟨⟨.singleVariable, .greaterThan⟩, 0⟩ (.vector [1]),
    .addConstraint (.singleVariable ⟨1⟩) (.lessThan 4)]

/-- The refusals bring about no results and use up no number of a constraint. -/
theorem withRefusals_no_effect :
    (transcript empty withRefusals).map isAccepted =
        [true, true, false, false, false, false, false, false, true] ∧
      runAll empty withRefusals = runAll empty [.addVariables 2,
        .addConstraint (.singleVariable ⟨0⟩) (.greaterThan 1),
        .addConstraint (.singleVariable ⟨1⟩) (.lessThan 4)] ∧
      (runAll empty withRefusals).dual ⟨⟨.singleVariable, .lessThan⟩, 1⟩ 0 =
        .error (.resultOutOfBounds 0 0) := by
  obtain ⟨-, hrun, -⟩ := refusal_no_effect (empty : Arena ℚ)
  obtain ⟨hall, -⟩ := hrun withRefusals
  refine ⟨by decide +kernel, hall, ?_⟩
  rw [hall]
  rfl

end Arena

end DualRecovery
