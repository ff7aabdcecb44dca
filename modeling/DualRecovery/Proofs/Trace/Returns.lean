import Mathlib
import DualRecovery.Recovery.Quantities

/-! When logged computations have results, and which. `Returns` says that a computation has a
result, whatever it logs; `Computes` says exactly when it has one. Loops have results if all their
steps have, and add up those. What a computation ends in depends on what its parts end in, not on
their logs. -/

namespace DualRecovery.Traced

variable {α β γ κ : Type}

/-- The result of `x` is `b`. -/
def Returns (x : Traced α β) (b : β) : Prop := x.outcome = .ok b

instance [DecidableEq β] (x : Traced α β) (b : β) : Decidable (x.Returns b) :=
  inferInstanceAs (Decidable (x.outcome = .ok b))

/-- The result of `x` is `b` if `P` holds, and `x` has none otherwise. -/
def Computes (x : Traced α β) (P : Prop) (b : β) : Prop := ∀ b', x.Returns b' ↔ P ∧ b' = b

theorem Returns.unique {x : Traced α β} {b b' : β} (h : x.Returns b) (h' : x.Returns b') :
    b = b' := by
  rw [Returns, h] at h'
  exact Except.ok.inj h'

theorem exists_returns_of_toBool {x : Traced α β} (h : x.outcome.toBool = true) :
    ∃ b, x.Returns b := by
  obtain ⟨log, failure | b⟩ := x
  · cases h
  · exact ⟨b, rfl⟩

/-! ### Results of single steps -/

@[simp] theorem returns_pure {b b' : β} : (pure b : Traced α β).Returns b' ↔ b = b' := by
  simp [Returns]

@[simp] theorem returns_fail {e : RecoveryError} {b : β} :
    (fail e : Traced α β).Returns b ↔ False := by
  simp [Returns, fail]

@[simp] theorem returns_ofQuery {x : Except QueryError β} {b : β} :
    (ofQuery x : Traced α β).Returns b ↔ x = .ok b := by
  cases x <;> simp [Returns, ofQuery, Except.mapError]

@[simp] theorem returns_ofChecked {x : Except Fault β} {b : β} :
    (ofChecked x : Traced α β).Returns b ↔ x = .ok b := by
  cases x <;> simp [Returns, ofChecked]

@[simp] theorem returns_ofEvaluation {x : Except (Failure QueryError) β} {b : β} :
    (ofEvaluation x : Traced α β).Returns b ↔ x = .ok b := by
  cases x <;> simp [Returns, ofEvaluation, Except.mapError]

@[simp] theorem returns_note {entry : LogEntry α} {u : Unit} : (note entry).Returns u := rfl

@[simp] theorem returns_emit {e : Event α} {u : Unit} : (emit e).Returns u := rfl

@[simp] theorem returns_bind {x : Traced α β} {f : β → Traced α γ} {c : γ} :
    (x >>= f).Returns c ↔ ∃ b, x.Returns b ∧ (f b).Returns c := by
  obtain ⟨log, _ | b⟩ := x
  · simp [Returns]
  · simp [Returns]

theorem Returns.outcome_bind {x : Traced α β} {b : β} (h : x.Returns b) (f : β → Traced α γ) :
    (x >>= f).outcome = (f b).outcome := by
  obtain ⟨log, outcome⟩ := x
  obtain rfl : outcome = .ok b := h
  rfl

theorem Returns.bind_iff {x : Traced α β} {b : β} (h : x.Returns b) {f : β → Traced α γ} {c : γ} :
    (x >>= f).Returns c ↔ (f b).Returns c := by
  rw [Returns, h.outcome_bind]
  rfl

theorem returns_recover {x : Traced α β} {handler : RecoveryError → Option (Traced α β)} {b : β} :
    (x.recover handler).Returns b ↔
      x.Returns b ∨ ∃ e y, x.outcome = .error (.error e) ∧ handler e = some y ∧ y.Returns b := by
  obtain ⟨log, (cause | e) | b'⟩ := x
  · simp [Returns, recover]
  · cases hy : handler e with
    | none => simp [Returns, recover, hy]
    | some y => simp [Returns, recover, hy]
  · simp [Returns, recover]

theorem returns_recover_of_error {x : Traced α β} {handler : RecoveryError → Option (Traced α β)}
    {e : RecoveryError} (h : x.outcome = .error (.error e)) {b : β} :
    (x.recover handler).Returns b ↔ ∃ y, handler e = some y ∧ y.Returns b := by
  rw [returns_recover, Returns, h]
  constructor
  · rintro (h' | ⟨e', y, he, hy, hb⟩)
    · cases h'
    · cases he
      exact ⟨y, hy, hb⟩
  · rintro ⟨y, hy, hb⟩
    exact .inr ⟨e, y, rfl, hy, hb⟩

@[simp] theorem returns_concluded {x : Traced α β} {quantity : Quantity}
    {ci : Option ConstraintIndex} {r : Nat} {b : β} :
    (x.concluded quantity ci r).Returns b ↔ x.Returns b := by
  obtain ⟨log, (cause | e) | b'⟩ := x <;> simp [Returns, concluded]

/-! ### Exact results -/

namespace Computes

variable {P Q : Prop} {x : Traced α β} {b b' : β} {c : γ}

theorem returns (h : x.Computes P b) (hP : P) : x.Returns b := (h b).mpr ⟨hP, rfl⟩

theorem condition (h : x.Computes P b) (hx : x.Returns b') : P := ((h b').mp hx).1

theorem eq (h : x.Computes P b) (hx : x.Returns b') : b' = b := ((h b').mp hx).2

theorem exists_returns (h : x.Computes P b) : (∃ b', x.Returns b') ↔ P :=
  ⟨fun ⟨_, hx⟩ => h.condition hx, fun hP => ⟨b, h.returns hP⟩⟩

theorem congr (h : x.Computes P b) (hP : P ↔ Q) (hb : P → b = b') : x.Computes Q b' := by
  intro b''
  rw [h b'', ← hP]
  exact and_congr_right fun hp => by rw [hb hp]

theorem of_returns (h : x.Returns b) : x.Computes True b := fun _ =>
  ⟨fun h' => ⟨trivial, h'.unique h⟩, fun h' => h'.2 ▸ h⟩

theorem of_pure (hP : P) (b : β) : (pure b : Traced α β).Computes P b := fun _ =>
  returns_pure.trans ⟨fun h => ⟨hP, h.symm⟩, fun h => h.2.symm⟩

theorem of_fail (hP : ¬P) (e : RecoveryError) (b : β) : (fail e : Traced α β).Computes P b :=
  fun _ => returns_fail.trans ⟨False.elim, fun h => hP h.1⟩

theorem bind {f : β → Traced α γ} (hx : x.Computes P b) (hf : P → (f b).Computes Q c) :
    (x >>= f).Computes (P ∧ Q) c := by
  intro c'
  rw [returns_bind]
  constructor
  · rintro ⟨b', hb, hc⟩
    obtain ⟨hP, rfl⟩ := (hx b').mp hb
    obtain ⟨hQ, rfl⟩ := (hf hP c').mp hc
    exact ⟨⟨hP, hQ⟩, rfl⟩
  · rintro ⟨⟨hP, hQ⟩, rfl⟩
    exact ⟨b, hx.returns hP, (hf hP).returns hQ⟩

theorem bind_pure (hx : x.Computes P b) (f : β → γ) :
    (x >>= fun b => pure (f b)).Computes P (f b) :=
  (hx.bind fun _ => of_pure trivial (f b)).congr (Iff.of_eq (and_true P)) fun _ => rfl

/-! ### Loops -/

variable {P : κ → Prop} {value : κ → β} {f : κ → Traced α β} {ks : List κ}

theorem mapM (hf : ∀ k ∈ ks, (f k).Computes (P k) (value k)) :
    (ks.mapM f).Computes (∀ k ∈ ks, P k) (ks.map value) := by
  induction ks with
  | nil =>
    rw [List.mapM_nil]
    exact of_pure (by simp) []
  | cons k ks ih =>
    rw [List.forall_mem_cons] at hf
    rw [List.mapM_cons]
    exact (hf.1.bind fun _ => (ih hf.2).bind_pure (value k :: ·)).congr
      (List.forall_mem_cons).symm fun _ => rfl

/-- A loop of steps that each put one more value to the state by an operation. -/
theorem foldlM {step : γ → κ → Traced α γ} (op : γ → β → γ)
    (hstep : ∀ a, ∀ k ∈ ks, (step a k).Computes (P k) (op a (value k))) (a : γ) :
    (ks.foldlM step a).Computes (∀ k ∈ ks, P k) ((ks.map value).foldl op a) := by
  induction ks generalizing a with
  | nil =>
    rw [List.foldlM_nil]
    exact of_pure (by simp) a
  | cons k ks ih =>
    have hk := hstep a k List.mem_cons_self
    have hks := ih fun a k' hk' => hstep a k' (List.mem_cons_of_mem k hk')
    rw [List.foldlM_cons]
    exact (hk.bind fun _ => hks _).congr (List.forall_mem_cons).symm fun _ => rfl

theorem forM {f : κ → Traced α Unit} (hf : ∀ k ∈ ks, (f k).Computes (P k) ()) :
    (ks.forM f).Computes (∀ k ∈ ks, P k) () := by
  induction ks with
  | nil => exact of_pure (by simp) ()
  | cons k ks ih =>
    rw [List.forall_mem_cons] at hf
    exact (hf.1.bind fun _ => ih hf.2).congr (List.forall_mem_cons).symm fun _ => rfl

end Computes

/-- A loop ends in a state with a property that its steps keep if it starts in one, or if one of its
steps leads to one from any state. -/
theorem Returns.foldlM_keeps {step : γ → κ → Traced α γ} {ks : List κ} {P : γ → Prop}
    (hkeep : ∀ k ∈ ks, ∀ c c', (step c k).Returns c' → P c → P c') {c c' : γ}
    (h : (ks.foldlM step c).Returns c')
    (hreach : P c ∨ ∃ k ∈ ks, ∀ c c', (step c k).Returns c' → P c') : P c' := by
  induction ks generalizing c with
  | nil =>
    rw [List.foldlM_nil, returns_pure] at h
    exact h ▸ hreach.resolve_right (by simp)
  | cons k ks ih =>
    rw [List.forall_mem_cons] at hkeep
    rw [List.foldlM_cons, returns_bind] at h
    obtain ⟨d, hd, h⟩ := h
    refine ih hkeep.2 h ?_
    rcases hreach with hc | ⟨k', hk', hleads⟩
    · exact Or.inl (hkeep.1 c d hd hc)
    · rcases List.mem_cons.mp hk' with rfl | hk'
      · exact Or.inl (hleads c d hd)
      · exact Or.inr ⟨k', hk', hleads⟩

/-- A loop over fewer keys has the results of a loop over more, if it does the same for the keys
that it has and the other loop does nothing for those that it skips. The steps are compared in
states with a property that they keep. -/
theorem returns_foldlM_sublist {ks ks' : List κ} (hsublist : ks'.Sublist ks) (hnodup : ks.Nodup)
    {step step' : γ → κ → Traced α γ} {P : γ → Prop}
    (hkeep : ∀ k ∈ ks, ∀ c c', (step c k).Returns c' → P c → P c')
    (hsame : ∀ k ∈ ks', ∀ c c', P c → ((step c k).Returns c' ↔ (step' c k).Returns c'))
    (hskip : ∀ k ∈ ks, k ∉ ks' → ∀ c c', P c → ((step c k).Returns c' ↔ c = c')) {c c' : γ}
    (hc : P c) : (ks.foldlM step c).Returns c' ↔ (ks'.foldlM step' c).Returns c' := by
  induction hsublist generalizing c with
  | slnil => rfl
  | @cons ks' ks k hsublist ih =>
    rw [List.nodup_cons] at hnodup
    rw [List.forall_mem_cons] at hkeep hskip
    have hk : k ∉ ks' := fun hk => hnodup.1 (hsublist.subset hk)
    rw [List.foldlM_cons, returns_bind]
    simp only [hskip.1 hk c _ hc, exists_eq_left']
    exact ih hnodup.2 hkeep.2 hsame hskip.2 hc
  | @cons_cons ks' ks k hsublist ih =>
    rw [List.nodup_cons] at hnodup
    rw [List.forall_mem_cons] at hkeep hsame
    rw [List.foldlM_cons, List.foldlM_cons, returns_bind, returns_bind]
    refine exists_congr fun d => ?_
    rw [hsame.1 c d hc]
    refine and_congr_right fun hd => ?_
    refine ih hnodup.2 hkeep.2 hsame.2 (fun k' hk' hnot => hskip k' (List.mem_cons_of_mem k hk') ?_)
      (hkeep.1 c d ((hsame.1 c d hc).mpr hd) hc)
    rw [List.mem_cons, not_or]
    exact ⟨fun heq => hnodup.1 (heq ▸ hk'), hnot⟩

/-! ### Outcomes -/

theorem outcome_bind_congr {x x' : Traced α β} {f f' : β → Traced α γ}
    (hx : x.outcome = x'.outcome) (hf : ∀ b, (f b).outcome = (f' b).outcome) :
    (x >>= f).outcome = (x' >>= f').outcome := by
  obtain ⟨log, outcome⟩ := x
  obtain ⟨log', outcome'⟩ := x'
  obtain rfl : outcome = outcome' := hx
  cases outcome with
  | error failure => rfl
  | ok b => exact hf b

/-- What is done with a result last changes just the result. -/
theorem outcome_bind_map {δ : Type} {x : Traced α β} {f : β → Traced α γ} {f' : β → Traced α δ}
    {g : γ → δ} (hf : ∀ b, (f' b).outcome = (f b).outcome.map g) :
    (x >>= f').outcome = (x >>= f).outcome.map g := by
  obtain ⟨log, failure | b⟩ := x
  · rfl
  · exact hf b

theorem outcome_foldlM_congr {step step' : β → κ → Traced α β} {ks : List κ}
    (hstep : ∀ b, ∀ k ∈ ks, (step b k).outcome = (step' b k).outcome) (b : β) :
    (ks.foldlM step b).outcome = (ks.foldlM step' b).outcome := by
  induction ks generalizing b with
  | nil => rfl
  | cons k ks ih =>
    rw [List.foldlM_cons, List.foldlM_cons]
    apply outcome_bind_congr (hstep b k List.mem_cons_self)
    exact ih fun b k' hk' => hstep b k' (List.mem_cons_of_mem k hk')

theorem outcome_concluded (x : Traced α β) (quantity : Quantity) (ci : Option ConstraintIndex)
    (r : Nat) : (x.concluded quantity ci r).outcome = x.outcome := by
  obtain ⟨log, (cause | e) | b⟩ := x <;> rfl

end DualRecovery.Traced
