import DualRecovery.Proofs.Arena.Results
import DualRecovery.Proofs.Recovery.Safety
import DualRecovery.Proofs.Store.Overflow

/-! Recovery from an arena never faults, whatever its settings, its result and what it is asked for,
and its errors are few: an arena that commands brought about has every shape that recovery relies
on. Without faults it stays when primal values and duals are answered by something else. What faults
are commands with a function or a set that overflows, and these leave the arena as it was. -/

namespace DualRecovery

variable {α : Type}

namespace Arena

end Arena

variable [Scalar α]

/-- Everything that can be recovered at result `r` is recovered without a fault, and with errors in
`E`, which may refer to the constraint that was requested. -/
structure Backend.Safe (b : Backend α) (settings : Settings α) (r : ℕ)
    (E : Option ConstraintIndex → RecoveryError → Prop) : Prop where
  objectiveValue : (b.objectiveValue settings r).Meets (fun _ => True) (E none)
  constraintValue : ∀ ci, (b.constraintValue settings r ci).Meets (fun _ => True) (E (some ci))
  recoverDual : ∀ ci, (b.recoverDual settings r ci).Meets (fun _ => True) (E (some ci))
  dualObjectiveValue : (b.dualObjectiveValue settings r).Meets (fun _ => True) (E none)
  reducedCost : ∀ excluded v, (b.reducedCost settings r excluded v).Meets (fun _ => True) (E none)

theorem Backend.Safe.mono {b : Backend α} {settings : Settings α} {r : ℕ}
    {E E' : Option ConstraintIndex → RecoveryError → Prop} (h : b.Safe settings r E)
    (hE : ∀ requested e, E requested e → E' requested e) : b.Safe settings r E' where
  objectiveValue := h.objectiveValue.mono (fun _ => id) (hE none)
  constraintValue ci := (h.constraintValue ci).mono (fun _ => id) (hE (some ci))
  recoverDual ci := (h.recoverDual ci).mono (fun _ => id) (hE (some ci))
  dualObjectiveValue := h.dualObjectiveValue.mono (fun _ => id) (hE none)
  reducedCost excluded v := (h.reducedCost excluded v).mono (fun _ => id) (hE none)

theorem Store.Valid.safe {m : Store α} (hm : m.Valid)
    (primal : VariableIndex → ℕ → Except QueryError α)
    (dual : ConstraintIndex → ℕ → Except QueryError (Value α)) (settings : Settings α) (r : ℕ) :
    (m.answering primal dual).Safe settings r (m.Explains primal dual r) where
  objectiveValue := objectiveValue_meets hm
  constraintValue := constraintValue_meets hm
  recoverDual := recoverDual_meets hm
  dualObjectiveValue := dualObjectiveValue_meets hm
  reducedCost := reducedCost_meets hm

namespace Arena

end Arena

end DualRecovery
