import Mathlib
import DualRecovery.Recovery.Quantities

/-! What logged computations ask for, whether they succeed or fail: a sequence asks for what its
parts ask for, and a loop for what its steps do. -/

namespace DualRecovery.Traced

variable {α β γ κ : Type}

/-- Every query that `x` makes is as `P` says. -/
def Asks (x : Traced α β) (P : Query → Prop) : Prop := ∀ q ∈ x.queries, P q

namespace Asks

variable {x : Traced α β} {P P' : Query → Prop}

theorem mono (h : x.Asks P) (hP : ∀ q, P q → P' q) : x.Asks P' := fun q hq => hP q (h q hq)

/-! ### Single steps -/

theorem of_log (h : x.log = []) : x.Asks P := fun q hq => by
  rw [queries, h] at hq
  cases hq

theorem pure (b : β) : (pure b : Traced α β).Asks P := of_log rfl

theorem fail (e : RecoveryError) : (fail e : Traced α β).Asks P := of_log rfl

theorem ofQuery (x : Except QueryError β) : (ofQuery x : Traced α β).Asks P := of_log rfl

theorem ofChecked (x : Except Fault β) : (ofChecked x : Traced α β).Asks P := of_log rfl

theorem note_query {q : Query} (h : P q) : (note (.query q) : Traced α Unit).Asks P :=
  List.forall_mem_singleton.mpr h

theorem emit (e : Event α) : (emit e).Asks P := fun q hq => by cases hq

/-! ### Sequences -/

theorem append {log log' : List (LogEntry α)} {outcome : Except (Failure RecoveryError) β}
    {outcome' : Except (Failure RecoveryError) γ} (h : (⟨log, outcome⟩ : Traced α β).Asks P)
    (h' : (⟨log', outcome'⟩ : Traced α γ).Asks P) :
    (⟨log ++ log', outcome'⟩ : Traced α γ).Asks P := by
  intro q hq
  rw [queries, List.filterMap_append] at hq
  exact (List.mem_append.mp hq).elim (h q) (h' q)

theorem bind {f : β → Traced α γ} (hx : x.Asks P) (hf : ∀ b, (f b).Asks P) : (x >>= f).Asks P := by
  obtain ⟨log, failure | b⟩ := x
  · exact hx
  · exact hx.append (hf b)

theorem recover {handler : RecoveryError → Option (Traced α β)} (hx : x.Asks P)
    (hhandler : ∀ e y, handler e = some y → y.Asks P) : (x.recover handler).Asks P := by
  obtain ⟨log, (cause | e) | b⟩ := x
  · exact hx
  · unfold Traced.recover
    cases hy : handler e with
    | none => simpa only [hy] using hx
    | some y => simpa only [hy] using hx.append (hhandler e y hy)
  · exact hx

theorem concluded (hx : x.Asks P) (quantity : Quantity) (ci : Option ConstraintIndex) (r : ℕ) :
    (x.concluded quantity ci r).Asks P := by
  have hevent (error : Option RecoveryError) :
      (⟨[.event (.computed quantity ci r error)], x.outcome⟩ : Traced α β).Asks P :=
    fun q hq => by cases hq
  obtain ⟨log, (cause | e) | b⟩ := x
  · exact hx
  · exact hx.append (hevent (some e))
  · exact hx.append (hevent none)

/-! ### Loops -/

theorem mapM {f : κ → Traced α β} {ks : List κ} (hf : ∀ k ∈ ks, (f k).Asks P) :
    (ks.mapM f).Asks P := by
  induction ks with
  | nil => exact pure []
  | cons k ks ih =>
    rw [List.forall_mem_cons] at hf
    rw [List.mapM_cons]
    exact hf.1.bind fun b => (ih hf.2).bind fun bs => pure (b :: bs)

theorem foldlM {step : γ → κ → Traced α γ} {ks : List κ}
    (hstep : ∀ c, ∀ k ∈ ks, (step c k).Asks P) (c : γ) : (ks.foldlM step c).Asks P := by
  induction ks generalizing c with
  | nil => exact pure c
  | cons k ks ih =>
    rw [List.foldlM_cons]
    exact (hstep c k List.mem_cons_self).bind
      (ih fun c k' hk' => hstep c k' (List.mem_cons_of_mem k hk'))

end Asks

end DualRecovery.Traced
