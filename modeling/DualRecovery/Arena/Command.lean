import DualRecovery.Arena.Update
import DualRecovery.Store.Command

/-! The runs of commands on an arena. -/

namespace DualRecovery

/-- A command, the answer to it, and the events that it emits. -/
structure Exchange (α : Type) where
  command : Command α
  answer : Except (Failure QueryError) Reply
  events : List (Event α)

namespace Arena

variable {α : Type}

def run (a : Arena α) : Command α → Outcome α Reply
  | .addVariable =>
    let (v, a) := a.addVariable
    ⟨.ok (.newVariable v), a, []⟩
  | .addVariables count =>
    let (vs, a) := a.addVariables count
    ⟨.ok (.newVariables vs), a, []⟩
  | .addConstraint function set => (a.addConstraint function set).map .newConstraint
  | .setObjective sense objective => (a.setObjective sense objective).map fun _ => .done
  | .reportPrimalStatus r status => ⟨.ok .done, a.reportPrimalStatus r status, []⟩
  | .reportDualStatus r status => ⟨.ok .done, a.reportDualStatus r status, []⟩
  | .reportPrimal r v x => (a.reportPrimal r v x).map fun _ => .done
  | .reportPrimals r values => (a.reportPrimals r values).map fun _ => .done
  | .reportDual r ci y => (a.reportDual r ci y).map fun _ => .done

/-- The arena after the commands, some of which may have been refused. -/
def runAll (a : Arena α) (commands : List (Command α)) : Arena α :=
  commands.foldl (fun a command => (a.run command).arena) a

/-- The commands of a run with the answers that they get and the events that they emit. -/
def transcript (a : Arena α) : List (Command α) → List (Exchange α)
  | [] => []
  | command :: commands =>
    let outcome := a.run command
    ⟨command, outcome.answer, outcome.events⟩ :: outcome.arena.transcript commands

theorem runAll_cons (a : Arena α) (command : Command α) (commands : List (Command α)) :
    a.runAll (command :: commands) = (a.run command).arena.runAll commands := rfl

theorem transcript_cons (a : Arena α) (command : Command α) (commands : List (Command α)) :
    a.transcript (command :: commands) =
      ⟨command, (a.run command).answer, (a.run command).events⟩ ::
        (a.run command).arena.transcript commands := rfl

/-- An arena that commands can bring about. -/
def Reachable [Zero α] (a : Arena α) : Prop := ∃ commands, a = runAll empty commands

end Arena

end DualRecovery
