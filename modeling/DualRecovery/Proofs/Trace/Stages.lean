import Mathlib
import DualRecovery.Trace.Traced

/-! Computations in stages. A stage may ask one query and may fail; a computation goes through its
stages in order and stops at the first that fails. Sequences of computations append their stages,
loops go through those of one step after the other. -/

namespace DualRecovery

/-- What a stage asks for, and how it fails, if it does. A query comes before the failure. -/
structure Stage where
  query? : Option Query
  failure? : Option (Failure RecoveryError)
  deriving DecidableEq, Repr

namespace Stage

/-- The stages up to the first that fails. -/
def reached : List Stage → List Stage
  | [] => []
  | s :: stages => s :: if s.failure?.isSome then [] else reached stages

theorem reached_singleton (s : Stage) : reached [s] = [s] := by
  rw [reached, reached, ite_self]

theorem reached_prefix (stages : List Stage) : reached stages <+: stages := by
  induction stages with
  | nil => exact List.prefix_rfl
  | cons s stages ih =>
    rw [reached, List.prefix_cons_inj]
    split
    · exact List.nil_prefix
    · exact ih

/-- Where no stage fails, all are reached. -/
theorem reached_eq_self {stages : List Stage} (h : ∀ s ∈ stages, s.failure? = none) :
    reached stages = stages := by
  induction stages with
  | nil => rfl
  | cons s stages ih =>
    rw [List.forall_mem_cons] at h
    rw [reached, h.1, ih h.2]
    rfl

theorem reached_append_of_forall {stages : List Stage} (h : ∀ s ∈ stages, s.failure? = none)
    (later : List Stage) : reached (stages ++ later) = stages ++ reached later := by
  induction stages with
  | nil => rfl
  | cons s stages ih =>
    rw [List.forall_mem_cons] at h
    rw [List.cons_append, reached, h.1, ih h.2]
    rfl

/-- Nothing after a failure is reached. -/
theorem reached_append_of_exists {stages : List Stage} (h : ∃ s ∈ stages, s.failure? ≠ none)
    (later : List Stage) : reached (stages ++ later) = reached stages := by
  induction stages with
  | nil => simp at h
  | cons s stages ih =>
    rw [List.cons_append, reached, reached]
    cases hs : s.failure? with
    | some failure => rfl
    | none =>
      obtain ⟨s', hs', hfailure⟩ := h
      obtain rfl | hs' := List.mem_cons.mp hs'
      · exact absurd hs hfailure
      · rw [ih ⟨s', hs', hfailure⟩]

end Stage

namespace Traced

variable {α β γ κ : Type}

/-- The failure, if there is one. -/
def failure? (x : Traced α β) : Option (Failure RecoveryError) :=
  match x.outcome with
  | .ok _ => none
  | .error failure => some failure

theorem failure?_eq_none {x : Traced α β} {b : β} (h : x.outcome = .ok b) : x.failure? = none := by
  rw [failure?, h]

theorem failure?_eq_some {x : Traced α β} {failure : Failure RecoveryError}
    (h : x.outcome = .error failure) : x.failure? = some failure := by
  rw [failure?, h]

theorem queries_ok_bind (log : List (LogEntry α)) (b : β) (f : β → Traced α γ) :
    ((⟨log, .ok b⟩ : Traced α β) >>= f).queries =
      log.filterMap LogEntry.query? ++ (f b).queries :=
  List.filterMap_append

/-- `x` goes through the stages: it asks for what those that are reached ask for, and fails as the
first does that fails. -/
structure Follows (x : Traced α β) (stages : List Stage) : Prop where
  queries : x.queries = (Stage.reached stages).filterMap Stage.query?
  failure : x.failure? = stages.findSome? Stage.failure?

namespace Follows

variable {x : Traced α β} {f : β → Traced α γ} {stages later : List Stage}

/-! ### Sequences -/

theorem pure (b : β) : (pure b : Traced α β).Follows [] := ⟨rfl, rfl⟩

theorem of_stage {s : Stage} (hquery : x.queries = s.query?.toList)
    (hfailure : x.failure? = s.failure?) : x.Follows [s] := by
  constructor
  · rw [hquery, Stage.reached_singleton]
    cases hs : s.query? <;> simp [hs]
  · rw [hfailure, List.findSome?_singleton]

theorem forall_of_ok (h : x.Follows stages) {b : β} (hb : x.outcome = .ok b) :
    ∀ s ∈ stages, s.failure? = none := by
  have hnone := h.failure
  rw [failure?_eq_none hb, eq_comm, List.findSome?_eq_none_iff] at hnone
  exact hnone

theorem exists_of_error (h : x.Follows stages) {failure : Failure RecoveryError}
    (he : x.outcome = .error failure) : ∃ s ∈ stages, s.failure? = some failure := by
  have hsome := h.failure
  rw [failure?_eq_some he, eq_comm] at hsome
  exact List.exists_of_findSome?_eq_some hsome

theorem bind (hx : x.Follows stages) (hf : ∀ b, (f b).Follows later) :
    (x >>= f).Follows (stages ++ later) := by
  obtain ⟨log, failure | b⟩ := x
  · obtain ⟨s, hs, hfailure⟩ := hx.exists_of_error rfl
    constructor
    · rw [Stage.reached_append_of_exists ⟨s, hs, by simp [hfailure]⟩]
      exact hx.queries
    · have hsome := hx.failure
      rw [List.findSome?_append, ← hsome]
      rfl
  · have hnone := hx.forall_of_ok rfl
    have hqueries := hx.queries
    rw [Stage.reached_eq_self hnone] at hqueries
    constructor
    · rw [queries_ok_bind, Stage.reached_append_of_forall hnone, List.filterMap_append,
        ← hqueries, ← (hf b).queries]
      rfl
    · rw [List.findSome?_append, List.findSome?_eq_none_iff.mpr hnone]
      exact (hf b).failure

/-- What is done last with a result has no stages. -/
theorem bind_pure (hx : x.Follows stages) (f : β → γ) :
    (x >>= fun b => Pure.pure (f b)).Follows stages := by
  have h := hx.bind fun b => pure (α := α) (f b)
  rwa [List.append_nil] at h

/-! ### Loops -/

theorem foldlM {step : γ → κ → Traced α γ} {stagesOf : κ → List Stage} {ks : List κ}
    (hstep : ∀ c, ∀ k ∈ ks, (step c k).Follows (stagesOf k)) (c : γ) :
    (ks.foldlM step c).Follows (ks.flatMap stagesOf) := by
  induction ks generalizing c with
  | nil => exact pure c
  | cons k ks ih =>
    rw [List.foldlM_cons, List.flatMap_cons]
    refine (hstep c k List.mem_cons_self).bind fun c' => ?_
    exact ih (fun c k' hk' => hstep c k' (List.mem_cons_of_mem k hk')) c'

theorem forM {f : κ → Traced α Unit} {stagesOf : κ → List Stage} {ks : List κ}
    (hf : ∀ k ∈ ks, (f k).Follows (stagesOf k)) : (ks.forM f).Follows (ks.flatMap stagesOf) := by
  induction ks with
  | nil => exact pure ()
  | cons k ks ih =>
    rw [List.forall_mem_cons] at hf
    exact hf.1.bind fun _ => ih hf.2

/-! ### What is asked -/

/-- The queries asked are the first of those of all stages. -/
theorem queries_prefix (h : x.Follows stages) :
    x.queries <+: stages.filterMap Stage.query? := by
  rw [h.queries]
  exact (Stage.reached_prefix stages).filterMap _

theorem queries_of_ok (h : x.Follows stages) {b : β} (hb : x.outcome = .ok b) :
    x.queries = stages.filterMap Stage.query? := by
  rw [h.queries, Stage.reached_eq_self (h.forall_of_ok hb)]

/-- A failure is that of the first stage that fails, and all queries up to that stage are asked. -/
theorem exists_split_of_error (h : x.Follows stages) {failure : Failure RecoveryError}
    (he : x.outcome = .error failure) : ∃ earlier s later, stages = earlier ++ s :: later ∧
      (∀ s' ∈ earlier, s'.failure? = none) ∧ s.failure? = some failure ∧
      x.queries = (earlier ++ [s]).filterMap Stage.query? := by
  have hsome := h.failure
  rw [failure?_eq_some he, eq_comm, List.findSome?_eq_some_iff] at hsome
  obtain ⟨earlier, s, later, rfl, hs, hearlier⟩ := hsome
  refine ⟨earlier, s, later, rfl, hearlier, hs, ?_⟩
  rw [h.queries, Stage.reached_append_of_forall hearlier, Stage.reached, hs]
  rfl

end Follows

end Traced

end DualRecovery
