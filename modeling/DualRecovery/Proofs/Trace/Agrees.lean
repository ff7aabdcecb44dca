import DualRecovery.Proofs.Trace.Returns

/-! Computations with the same results. One has a result just where the other has it; they may fail
and log differently. Sequences of computations that agree agree, and a loop whose steps add up may
take them in any order. -/

namespace DualRecovery.Traced

variable {α β γ κ : Type}

/-- The results of the two computations are the same. -/
def Agrees (x x' : Traced α β) : Prop := ∀ b, x.Returns b ↔ x'.Returns b

theorem returns_forM {f : κ → Traced α Unit} {ks : List κ} {u : Unit} :
    (ks.forM f).Returns u ↔ ∀ k ∈ ks, (f k).Returns () := by
  induction ks with
  | nil => exact ⟨fun _ _ h => absurd h List.not_mem_nil, fun _ => rfl⟩
  | cons k ks ih =>
    rw [List.forall_mem_cons, ← ih]
    exact returns_bind.trans ⟨fun ⟨(), h⟩ => h, fun h => ⟨(), h⟩⟩

namespace Agrees

variable {x x' x'' : Traced α β}

theorem refl (x : Traced α β) : x.Agrees x := fun _ => Iff.rfl

theorem symm (h : x.Agrees x') : x'.Agrees x := fun b => (h b).symm

theorem trans (h : x.Agrees x') (h' : x'.Agrees x'') : x.Agrees x'' := fun b => (h b).trans (h' b)

/-! ### Sequences -/

theorem bind {f f' : β → Traced α γ} (hx : x.Agrees x') (hf : ∀ b, (f b).Agrees (f' b)) :
    (x >>= f).Agrees (x' >>= f') := by
  intro c
  rw [returns_bind, returns_bind]
  exact exists_congr fun b => and_congr (hx b) (hf b c)

theorem recover {handler handler' : RecoveryError → Option (Traced α β)}
    (h : ∀ e, Option.Rel Agrees (handler e) (handler' e)) :
    (x.recover handler).Agrees (x.recover handler') := by
  intro b
  rw [returns_recover, returns_recover]
  refine or_congr_right (exists_congr fun e => ?_)
  have he := h e
  generalize handler e = y? at he
  generalize handler' e = y?' at he
  cases he with
  | none => simp
  | some hy => simp [hy b]

theorem concluded (h : x.Agrees x') (quantity : Quantity) (ci : Option ConstraintIndex) (r : ℕ) :
    (x.concluded quantity ci r).Agrees (x'.concluded quantity ci r) := fun b =>
  returns_concluded.trans ((h b).trans returns_concluded.symm)

/-! ### Loops -/

theorem mapM {f f' : κ → Traced α β} {ks : List κ} (hf : ∀ k ∈ ks, (f k).Agrees (f' k)) :
    (ks.mapM f).Agrees (ks.mapM f') := by
  induction ks with
  | nil => exact refl _
  | cons k ks ih =>
    rw [List.forall_mem_cons] at hf
    rw [List.mapM_cons, List.mapM_cons]
    exact hf.1.bind fun _ => (ih hf.2).bind fun _ => refl _

theorem foldlM {step step' : γ → κ → Traced α γ} {ks : List κ}
    (hstep : ∀ c, ∀ k ∈ ks, (step c k).Agrees (step' c k)) (c : γ) :
    (ks.foldlM step c).Agrees (ks.foldlM step' c) := by
  induction ks generalizing c with
  | nil => exact refl _
  | cons k ks ih =>
    rw [List.foldlM_cons, List.foldlM_cons]
    refine (hstep c k List.mem_cons_self).bind fun c' => ?_
    exact ih (fun c k' hk' => hstep c k' (List.mem_cons_of_mem k hk')) c'

/-- Steps that put values to the state by an operation, for which the order of the values does not
matter, may be taken in any order. -/
theorem foldlM_perm {op : γ → β → γ} (hop : ∀ c b b', op (op c b) b' = op (op c b') b)
    {f : κ → Traced α β} {ks ks' : List κ} (hks : ks.Perm ks') (c : γ) :
    (ks.foldlM (fun c k => f k >>= fun b => pure (op c b)) c).Agrees
      (ks'.foldlM (fun c k => f k >>= fun b => pure (op c b)) c) := by
  induction hks generalizing c with
  | nil => exact refl _
  | cons k _ ih =>
    rw [List.foldlM_cons, List.foldlM_cons]
    exact (refl _).bind ih
  | swap k k' ks =>
    intro c'
    simp only [List.foldlM_cons, returns_bind, returns_pure]
    constructor
    · rintro ⟨_, ⟨b, hb, rfl⟩, _, ⟨b', hb', rfl⟩, hrest⟩
      rw [hop] at hrest
      exact ⟨_, ⟨b', hb', rfl⟩, _, ⟨b, hb, rfl⟩, hrest⟩
    · rintro ⟨_, ⟨b, hb, rfl⟩, _, ⟨b', hb', rfl⟩, hrest⟩
      rw [hop] at hrest
      exact ⟨_, ⟨b', hb', rfl⟩, _, ⟨b, hb, rfl⟩, hrest⟩
  | trans _ _ ih ih' => exact (ih c).trans (ih' c)

/-- What is added up from some number on is added up from zero, and the number then added. -/
theorem foldlM_add [AddMonoid β] {f : κ → Traced α β} {ks : List κ} (a b : β) :
    (ks.foldlM (fun c k => f k >>= fun b => pure (c + b)) (a + b)).Agrees
      (ks.foldlM (fun c k => f k >>= fun b => pure (c + b)) b >>= fun c => pure (a + c)) := by
  induction ks generalizing b with
  | nil => exact refl _
  | cons k ks ih =>
    simp only [List.foldlM_cons, bind_assoc, pure_bind, add_assoc]
    exact (refl _).bind fun b' => ih (b + b')

end Agrees

end DualRecovery.Traced
