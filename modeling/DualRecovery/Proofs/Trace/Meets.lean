import Mathlib
import DualRecovery.Recovery.Quantities

/-! What logged computations end in. `Meets` says that a computation has a result of one kind or an
error of another kind, and never a fault; a loop keeps what its steps keep. -/

namespace DualRecovery.Traced

variable {α β γ κ : Type}

/-- A result is as `Q` says, an error as `E` says, and there is no fault. -/
def Meets (x : Traced α β) (Q : β → Prop) (E : RecoveryError → Prop) : Prop :=
  match x.outcome with
  | .ok b => Q b
  | .error (.error e) => E e
  | .error (.fault _) => False

namespace Meets

variable {x : Traced α β} {Q Q' : β → Prop} {R : γ → Prop} {E E' : RecoveryError → Prop}

theorem of_ok (h : x.Meets Q E) {b : β} (hb : x.outcome = .ok b) : Q b := by
  rw [Meets, hb] at h
  exact h

theorem mono (h : x.Meets Q E) (hQ : ∀ b, Q b → Q' b) (hE : ∀ e, E e → E' e) : x.Meets Q' E' := by
  unfold Meets at h ⊢
  split at h
  · exact hQ _ h
  · exact hE _ h
  · exact h

/-! ### Single steps -/

theorem pure {b : β} (h : Q b) : (pure b : Traced α β).Meets Q E := h

theorem fail {e : RecoveryError} (h : E e) : (fail e : Traced α β).Meets Q E := h

theorem ofQuery {q : Except QueryError β} (hok : ∀ b, q = .ok b → Q b)
    (herror : ∀ cause, q = .error cause → E (.query cause)) :
    (ofQuery q : Traced α β).Meets Q E := by
  cases q with
  | ok b => exact hok b rfl
  | error cause => exact herror cause rfl

theorem ofChecked {c : Except Fault β} {b : β} (hc : c = .ok b) (hb : Q b) :
    (ofChecked c : Traced α β).Meets Q E := by
  rw [hc]
  exact hb

theorem note (entry : LogEntry α) : (note entry).Meets (fun _ => True) E := trivial

theorem emit (e : Event α) : (emit e).Meets (fun _ => True) E := trivial

/-! ### Sequences -/

theorem bind {f : β → Traced α γ} (hx : x.Meets Q E) (hf : ∀ b, Q b → (f b).Meets R E) :
    (x >>= f).Meets R E := by
  obtain ⟨log, (cause | e) | b⟩ := x
  · exact hx
  · exact hx
  · exact hf b hx

theorem recover {handler : RecoveryError → Option (Traced α β)} (hx : x.Meets Q E)
    (hhandler : ∀ e y, E e → handler e = some y → y.Meets Q E) :
    (x.recover handler).Meets Q E := by
  obtain ⟨log, (cause | e) | b⟩ := x
  · exact hx
  · unfold Traced.recover
    cases hy : handler e with
    | none => simpa [hy] using hx
    | some y => simpa [hy, Meets] using hhandler e y hx hy
  · exact hx

theorem concluded (hx : x.Meets Q E) (quantity : Quantity) (ci : Option ConstraintIndex) (r : ℕ) :
    (x.concluded quantity ci r).Meets Q E := by
  obtain ⟨log, (cause | e) | b⟩ := x <;> exact hx

/-! ### Loops -/

theorem mapM {f : κ → Traced α β} {ks : List κ} (hf : ∀ k ∈ ks, (f k).Meets Q E) :
    (ks.mapM f).Meets (fun bs => bs.length = ks.length ∧ ∀ b ∈ bs, Q b) E := by
  induction ks with
  | nil => exact pure ⟨rfl, fun _ h => absurd h List.not_mem_nil⟩
  | cons k ks ih =>
    rw [List.forall_mem_cons] at hf
    rw [List.mapM_cons]
    apply bind hf.1
    intro b hb
    apply bind (ih hf.2)
    rintro bs ⟨hlength, hbs⟩
    exact pure ⟨congrArg Nat.succ hlength, List.forall_mem_cons.mpr ⟨hb, hbs⟩⟩

theorem foldlM {step : β → κ → Traced α β} {ks : List κ}
    (hstep : ∀ b, Q b → ∀ k ∈ ks, (step b k).Meets Q E) {b : β} (hb : Q b) :
    (ks.foldlM step b).Meets Q E := by
  induction ks generalizing b with
  | nil => exact pure hb
  | cons k ks ih =>
    rw [List.foldlM_cons]
    apply bind (hstep b hb k List.mem_cons_self)
    intro b' hb'
    exact ih (fun b hb k' hk' => hstep b hb k' (List.mem_cons_of_mem k hk')) hb'

theorem forM {f : κ → Traced α Unit} {ks : List κ} (hf : ∀ k ∈ ks, (f k).Meets (fun _ => True) E) :
    (ks.forM f).Meets (fun _ => True) E := by
  induction ks with
  | nil => exact pure trivial
  | cons k ks ih =>
    rw [List.forall_mem_cons] at hf
    exact bind hf.1 fun _ _ => ih hf.2

end Meets

end DualRecovery.Traced
