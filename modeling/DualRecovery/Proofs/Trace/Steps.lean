import DualRecovery.Proofs.Trace.Returns
import DualRecovery.Proofs.Trace.Stages

/-! What computations emit, step by step. A step fails, or it goes on, with an event or without one.
A computation emits the events of its steps up to the first that fails, and fails as that one does.
One that is concluded emits one event more, which tells how it ended. -/

namespace DualRecovery

/-- How a step fails, or the event that it emits, if it emits one. -/
abbrev Step (α : Type) := Except (Failure RecoveryError) (Option (Event α))

namespace Step

variable {α : Type}

/-- The events of the steps before the first that fails. -/
def events : List (Step α) → List (Event α)
  | [] => []
  | .ok event? :: steps => event?.toList ++ events steps
  | .error _ :: _ => []

/-- The failure of the first step that fails. -/
def failure? : List (Step α) → Option (Failure RecoveryError)
  | [] => none
  | .ok _ :: steps => failure? steps
  | .error failure :: _ => some failure

theorem failure?_append (steps later : List (Step α)) :
    failure? (steps ++ later) = (failure? steps).or (failure? later) := by
  induction steps with
  | nil => rfl
  | cons s steps ih =>
    cases s with
    | error failure => rfl
    | ok event? => exact ih

/-- Nothing after a failure emits anything. -/
theorem events_append_of_some {steps : List (Step α)} {failure : Failure RecoveryError}
    (h : failure? steps = some failure) (later : List (Step α)) :
    events (steps ++ later) = events steps := by
  induction steps with
  | nil => cases h
  | cons s steps ih =>
    cases s with
    | error failure => rfl
    | ok event? => exact congrArg (event?.toList ++ ·) (ih h)

theorem events_append_of_none {steps : List (Step α)} (h : failure? steps = none)
    (later : List (Step α)) : events (steps ++ later) = events steps ++ events later := by
  induction steps with
  | nil => rfl
  | cons s steps ih =>
    cases s with
    | error failure => cases h
    | ok event? =>
      rw [List.cons_append, events, events, ih h, List.append_assoc]

theorem mem_of_mem_events {steps : List (Step α)} {e : Event α} (h : e ∈ events steps) :
    .ok (some e) ∈ steps := by
  induction steps with
  | nil => cases h
  | cons s steps ih =>
    cases s with
    | error failure => cases h
    | ok event? =>
      rcases List.mem_append.mp h with h | h
      · rw [Option.mem_toList.mp h]
        exact List.mem_cons_self
      · exact List.mem_cons_of_mem _ (ih h)

end Step

namespace Traced

variable {α β γ κ : Type}

theorem events_ok_bind (log : List (LogEntry α)) (b : β) (f : β → Traced α γ) :
    ((⟨log, .ok b⟩ : Traced α β) >>= f).events =
      log.filterMap LogEntry.event? ++ (f b).events :=
  List.filterMap_append

theorem events_bind_eq_nil {x : Traced α β} {f : β → Traced α γ} (hx : x.events = [])
    (hf : ∀ b, (f b).events = []) : (x >>= f).events = [] := by
  obtain ⟨log, failure | b⟩ := x
  · exact hx
  · rw [events_ok_bind, hf b, List.append_nil]
    exact hx

theorem events_forM_eq_nil {f : κ → Traced α Unit} {ks : List κ}
    (hf : ∀ k ∈ ks, (f k).events = []) : (ks.forM f).events = [] := by
  induction ks with
  | nil => rfl
  | cons k ks ih =>
    rw [List.forall_mem_cons] at hf
    exact events_bind_eq_nil hf.1 fun _ => ih hf.2

theorem events_bind_pure (x : Traced α β) (f : β → γ) :
    (x >>= fun b => pure (f b) : Traced α γ).events = x.events := by
  obtain ⟨log, failure | b⟩ := x
  · rfl
  · rw [events_ok_bind]
    exact List.append_nil _

/-- The computation as one step, with the event of its result. -/
def asStep (x : Traced α β) (event? : β → Option (Event α)) : Step α := x.outcome.map event?

theorem exists_of_asStep {x : Traced α β} {event? : β → Option (Event α)} {e : Event α}
    (h : x.asStep event? = .ok (some e)) : ∃ b, event? b = some e := by
  obtain ⟨log, failure | b⟩ := x
  · cases h
  · exact ⟨b, Except.ok.inj h⟩

theorem ne_silent_step {x : Traced α β} {e : Event α} : .ok (some e) ≠ x.asStep fun _ => none := by
  intro h
  obtain ⟨-, h⟩ := exists_of_asStep h.symm
  cases h

/-- `x` goes through the steps up to the first that fails. -/
structure Takes (x : Traced α β) (steps : List (Step α)) : Prop where
  events : x.events = Step.events steps
  failure : x.failure? = Step.failure? steps

/-- All that `x` emits is the event of its result. -/
def Emits (x : Traced α β) (event? : β → Option (Event α)) : Prop :=
  x.events = Step.events [x.asStep event?]

namespace Emits

variable {x : Traced α β} {event? : β → Option (Event α)}

theorem takes (h : x.Emits event?) : x.Takes [x.asStep event?] := by
  refine ⟨h, ?_⟩
  obtain ⟨log, failure | b⟩ := x <;> rfl

theorem of_silent (h : x.events = []) : x.Emits fun _ => none := by
  rw [Emits, h]
  obtain ⟨log, failure | b⟩ := x <;> rfl

theorem of_error {failure : Failure RecoveryError} :
    (⟨[], .error failure⟩ : Traced α β).Emits event? := rfl

theorem emit_pure {e : Event α} {b : β} (h : event? b = some e) :
    (emit e >>= fun _ => pure b : Traced α β).Emits event? := by
  show [e] = (event? b).toList ++ []
  rw [h]
  rfl

theorem silent_bind {f : β → Traced α γ} {event? : γ → Option (Event α)} (hx : x.events = [])
    (hf : ∀ b, (f b).Emits event?) : (x >>= f).Emits event? := by
  obtain ⟨log, failure | b⟩ := x
  · exact hx
  · rw [Emits, events_ok_bind, show log.filterMap LogEntry.event? = [] from hx, List.nil_append]
    exact hf b

end Emits

namespace Takes

variable {x : Traced α β} {f : β → Traced α γ} {steps later : List (Step α)}

/-! ### Sequences -/

theorem pure (b : β) : (pure b : Traced α β).Takes [] := ⟨rfl, rfl⟩

theorem bind (hx : x.Takes steps) (hf : ∀ b, (f b).Takes later) :
    (x >>= f).Takes (steps ++ later) := by
  obtain ⟨log, failure | b⟩ := x
  · have hfailure : Step.failure? steps = some failure := hx.failure.symm
    constructor
    · rw [Step.events_append_of_some hfailure]
      exact hx.events
    · rw [Step.failure?_append, hfailure]
      rfl
  · have hnone : Step.failure? steps = none := hx.failure.symm
    constructor
    · rw [Step.events_append_of_none hnone, events_ok_bind, ← hx.events, (hf b).events]
      rfl
    · rw [Step.failure?_append, hnone]
      exact (hf b).failure

/-- A query is no step. -/
theorem note_bind {q : Query} (hx : x.Takes steps) :
    (note (.query q) >>= fun _ => x).Takes steps := ⟨hx.events, hx.failure⟩

/-- What is done last with a result takes no steps. -/
theorem bind_pure (hx : x.Takes steps) (f : β → γ) :
    (x >>= fun b => Pure.pure (f b)).Takes steps := by
  have h := hx.bind fun b => pure (α := α) (f b)
  rwa [List.append_nil] at h

/-- The last of the steps is that of the whole computation: it has come this far if no step before
fails. -/
theorem bind_emits {event? : γ → Option (Event α)} (hx : x.Takes steps)
    (hf : ∀ b, (f b).Emits event?) : (x >>= f).Takes (steps ++ [(x >>= f).asStep event?]) := by
  obtain ⟨log, failure | b⟩ := x
  · have hfailure : Step.failure? steps = some failure := hx.failure.symm
    constructor
    · rw [Step.events_append_of_some hfailure]
      exact hx.events
    · rw [Step.failure?_append, hfailure]
      rfl
  · have hnone : Step.failure? steps = none := hx.failure.symm
    constructor
    · rw [Step.events_append_of_none hnone, events_ok_bind, ← hx.events, hf b]
      rfl
    · rw [Step.failure?_append, hnone]
      exact (hf b).takes.failure

/-! ### Loops -/

variable {stepsOf : κ → List (Step α)} {ks : List κ}

theorem foldlM {step : γ → κ → Traced α γ} (hstep : ∀ c, ∀ k ∈ ks, (step c k).Takes (stepsOf k))
    (c : γ) : (ks.foldlM step c).Takes (ks.flatMap stepsOf) := by
  induction ks generalizing c with
  | nil => exact pure c
  | cons k ks ih =>
    rw [List.foldlM_cons, List.flatMap_cons]
    refine (hstep c k List.mem_cons_self).bind fun c' => ?_
    exact ih (fun c k' hk' => hstep c k' (List.mem_cons_of_mem k hk')) c'

theorem forM {f : κ → Traced α Unit} (hf : ∀ k ∈ ks, (f k).Takes (stepsOf k)) :
    (ks.forM f).Takes (ks.flatMap stepsOf) := by
  induction ks with
  | nil => exact pure ()
  | cons k ks ih =>
    rw [List.forall_mem_cons] at hf
    exact hf.1.bind fun _ => ih hf.2

theorem mapM {f : κ → Traced α β} (hf : ∀ k ∈ ks, (f k).Takes (stepsOf k)) :
    (ks.mapM f).Takes (ks.flatMap stepsOf) := by
  induction ks with
  | nil => exact pure []
  | cons k ks ih =>
    rw [List.forall_mem_cons] at hf
    rw [List.mapM_cons]
    exact hf.1.bind fun b => (ih hf.2).bind_pure (b :: ·)

end Takes

/-! ### Results and events -/

theorem Returns.events_bind {x : Traced α β} {b : β} (h : x.Returns b) (f : β → Traced α γ) :
    (x >>= f).events = x.events ++ (f b).events := by
  obtain ⟨log, outcome⟩ := x
  obtain rfl : outcome = .ok b := h
  exact events_ok_bind log b f

/-- The result of a loop is that of an operation on the state and the emitted events, if the result
of each step is. -/
theorem Returns.foldlM_events (op : γ → List (Event α) → γ) (hnil : ∀ c, op c [] = c)
    (happend : ∀ c events events', op (op c events) events' = op c (events ++ events'))
    {step : γ → κ → Traced α γ} {ks : List κ}
    (hstep : ∀ k ∈ ks, ∀ c c', (step c k).Returns c' → c' = op c (step c k).events) {c c' : γ}
    (h : (ks.foldlM step c).Returns c') : c' = op c (ks.foldlM step c).events := by
  induction ks generalizing c with
  | nil =>
    rw [List.foldlM_nil, returns_pure] at h
    rw [← h]
    exact (hnil c).symm
  | cons k ks ih =>
    rw [List.forall_mem_cons] at hstep
    rw [List.foldlM_cons] at h ⊢
    obtain ⟨d, hd, h⟩ := returns_bind.mp h
    have hc' := ih hstep.2 h
    rw [hstep.1 c d hd, happend, ← hstep.1 c d hd] at hc'
    rw [hd.events_bind, ← hc']

end Traced

/-! ### Conclusions -/

variable {α β : Type}

/-- The event says that `x` was to compute `quantity`, and how it ended. -/
structure Event.Tells (e : Event α) (quantity : Quantity) (x : Traced α β) : Prop where
  level : e.level = .debug
  operation : e.fields.lookup "operation" = some (.text quantity.name)
  success : e.fields.lookup "status" = some (.text "success") ↔ ∃ b, x.outcome = .ok b
  error : e.fields.lookup "status" = some (.text "error") ↔
    ∃ cause, x.outcome = .error (.error cause)
  message : ∀ cause, x.outcome = .error (.error cause) → e.message = cause.message

theorem Event.lookup_status (quantity : Quantity) (ci : Option ConstraintIndex) (r : ℕ)
    (error : Option RecoveryError) :
    (Event.computed quantity ci r error : Event α).fields.lookup "status" =
      some (.text (if error.isSome then "error" else "success")) := rfl

namespace Traced

/-- The log accounts for the outcome of a computation of `quantity` in these steps: unless that is a
fault, the events are those of the steps, all of them traces, and one that tells the outcome. -/
structure Accounts (x : Traced α β) (quantity : Quantity) (steps : List (Step α)) : Prop where
  failure : x.failure? = Step.failure? steps
  level : ∀ e ∈ Step.events steps, e.level = .trace
  events : (∀ cause, x.outcome ≠ .error (.fault cause)) →
    ∃ last : Event α, x.events = Step.events steps ++ [last] ∧ last.Tells quantity x

variable {x : Traced α β} {steps : List (Step α)}

theorem events_concluded {quantity : Quantity} {ci : Option ConstraintIndex} {r : ℕ}
    (h : ∀ cause, x.outcome ≠ .error (.fault cause)) :
    ∃ last : Event α, (x.concluded quantity ci r).events = x.events ++ [last] ∧
      last.Tells quantity (x.concluded quantity ci r) := by
  obtain ⟨log, (cause | e) | b⟩ := x
  · exact absurd rfl (h cause)
  · refine ⟨.computed quantity ci r (some e), List.filterMap_append, rfl, rfl, ?_, ?_, ?_⟩
    · simp [Event.lookup_status, concluded]
    · simp [Event.lookup_status, concluded]
    · rintro _ ⟨⟩
      rfl
  · refine ⟨.computed quantity ci r none, List.filterMap_append, rfl, rfl, ?_, ?_, ?_⟩
    · simp [Event.lookup_status, concluded]
    · simp [Event.lookup_status, concluded]
    · rintro _ ⟨⟩

theorem Returns.events_concluded {b : β} (h : x.Returns b) (quantity : Quantity)
    (ci : Option ConstraintIndex) (r : ℕ) :
    (x.concluded quantity ci r).events = x.events ++ [.computed quantity ci r none] := by
  obtain ⟨log, outcome⟩ := x
  obtain rfl : outcome = .ok b := h
  exact List.filterMap_append

theorem Takes.concluded (hx : x.Takes steps)
    (hlevel : ∀ e, .ok (some e) ∈ steps → e.level = .trace) (quantity : Quantity)
    (ci : Option ConstraintIndex) (r : ℕ) :
    (x.concluded quantity ci r).Accounts quantity steps := by
  constructor
  · rw [← hx.failure, failure?, failure?, outcome_concluded]
  · exact fun e he => hlevel e (Step.mem_of_mem_events he)
  · rw [outcome_concluded, ← hx.events]
    exact events_concluded

/-- Where nothing was emitted, the outcome is all there is to tell. -/
theorem accounts_of_silent (hx : x.events = []) (quantity : Quantity)
    (ci : Option ConstraintIndex) (r : ℕ) :
    (x.concluded quantity ci r).Accounts quantity
      [(x.concluded quantity ci r).asStep fun _ => none] := by
  have haccounts := (Emits.of_silent hx).takes.concluded (fun e he => ?_) quantity ci r
  · rwa [asStep, ← outcome_concluded x quantity ci r] at haccounts
  · exact absurd (List.mem_singleton.mp he) ne_silent_step

end Traced

end DualRecovery
