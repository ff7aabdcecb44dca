import DualRecovery.Failure
import DualRecovery.Trace.Event

/-! Computations that leave a log: the queries for solution data that they make of a backend, and
the events that they emit. What was logged before a failure stays in the log. -/

namespace DualRecovery

/-- The queries that are logged. -/
inductive Query where
  | constraintDual (ci : ConstraintIndex) (r : Nat)
  | primalStatus (r : Nat)
  deriving DecidableEq, Repr

def Query.text : Query → String
  | constraintDual ci r => "dual " ++ ci.text ++ " " ++ r.repr
  | primalStatus r => "primal_status " ++ r.repr

inductive LogEntry (α : Type) where
  | query (q : Query)
  | event (e : Event α)
  deriving DecidableEq, Repr

namespace LogEntry

variable {α : Type}

def query? : LogEntry α → Option Query
  | query q => some q
  | event _ => none

def event? : LogEntry α → Option (Event α)
  | query _ => none
  | event e => some e

end LogEntry

/-- The log and the outcome of a computation of a `β`; the events carry scalars of type `α`. -/
structure Traced (α β : Type) where
  log : List (LogEntry α)
  outcome : Except (Failure RecoveryError) β
  deriving Repr

namespace Traced

variable {α β γ : Type}

/-- The computation that is done. -/
def done (b : β) : Traced α β := ⟨[], .ok b⟩

/-- First `x`, then, if it has a result, `f` on that. -/
def andThen (x : Traced α β) (f : β → Traced α γ) : Traced α γ :=
  match x.outcome with
  | .ok b =>
    let y := f b
    ⟨x.log ++ y.log, y.outcome⟩
  | .error failure => ⟨x.log, .error failure⟩

instance : Monad (Traced α) where
  pure := done
  bind := andThen

def fail (error : RecoveryError) : Traced α β := ⟨[], .error (.error error)⟩

/-- A query that is not logged. -/
def ofQuery (x : Except QueryError β) : Traced α β :=
  ⟨[], orError (x.mapError .query)⟩

def ofChecked (x : Except Fault β) : Traced α β := ⟨[], orFault x⟩

/-- An evaluation from queries that are not logged. -/
def ofEvaluation (x : Except (Failure QueryError) β) : Traced α β :=
  ⟨[], x.mapError (Failure.map .query)⟩

def note (entry : LogEntry α) : Traced α Unit := ⟨[entry], .ok ()⟩

def emit (e : Event α) : Traced α Unit := note (.event e)

/-- First `x`; where it fails with an error for which `handler` has a computation, that one comes
instead, after what `x` logged. -/
def recover (x : Traced α β) (handler : RecoveryError → Option (Traced α β)) : Traced α β :=
  match x.outcome with
  | .error (.error error) =>
    match handler error with
    | some y => ⟨x.log ++ y.log, y.outcome⟩
    | none => x
  | _ => x

/-- The queries made, in order. -/
def queries (x : Traced α β) : List Query := x.log.filterMap LogEntry.query?

/-- The events emitted, in order. -/
def events (x : Traced α β) : List (Event α) := x.log.filterMap LogEntry.event?

/-! ### Unfolding -/

@[simp] theorem pure_eq (b : β) : (pure b : Traced α β) = ⟨[], .ok b⟩ := rfl

@[simp] theorem ok_bind (log : List (LogEntry α)) (b : β) (f : β → Traced α γ) :
    ((⟨log, .ok b⟩ : Traced α β) >>= f) = ⟨log ++ (f b).log, (f b).outcome⟩ := rfl

@[simp] theorem error_bind (log : List (LogEntry α)) (failure : Failure RecoveryError)
    (f : β → Traced α γ) : ((⟨log, .error failure⟩ : Traced α β) >>= f) = ⟨log, .error failure⟩ :=
  rfl

instance : LawfulMonad (Traced α) := LawfulMonad.mk' (Traced α)
  (by
    rintro β ⟨log, _ | b⟩
    · rfl
    · show (⟨log ++ [], _⟩ : Traced α β) = _
      rw [List.append_nil]
      rfl)
  (fun _ _ => rfl)
  (by
    rintro β γ δ ⟨log, _ | b⟩ f g
    · rfl
    · simp only [ok_bind]
      rcases f b with ⟨log', _ | c⟩
      · rfl
      · simp only [ok_bind, List.append_assoc])

end Traced

end DualRecovery
