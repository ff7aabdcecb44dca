/-! The two ways in which a computation stops: a fault, when it is applied to data it is not meant
for, and an error, which is an answer. -/

namespace DualRecovery

/-- A broken precondition. -/
inductive Fault where
  | lengthMismatch (left right : Nat)
  | outOfRange (position length : Nat)
  | shapeMismatch
  /-- The result of an operation on machine words is no word. -/
  | overflow
  deriving DecidableEq, Repr

/-- Why a computation with errors of type `ε` has no result. -/
inductive Failure (ε : Type) where
  | fault (cause : Fault)
  | error (cause : ε)
  deriving DecidableEq, Repr

/-- The failure with its error, if it is one, in other terms. -/
def Failure.map {ε ε' : Type} (f : ε → ε') : Failure ε → Failure ε'
  | .fault cause => .fault cause
  | .error cause => .error (f cause)

/-- A computation that can only fault, among those with errors of type `ε`. -/
def orFault {ε β : Type} (x : Except Fault β) : Except (Failure ε) β := x.mapError .fault

/-- A computation without faults, among those that may have one. -/
def orError {ε β : Type} (x : Except ε β) : Except (Failure ε) β := x.mapError .error

variable {ε β : Type}

@[simp] theorem orFault_ok (b : β) : (orFault (.ok b) : Except (Failure ε) β) = .ok b := rfl

@[simp] theorem orFault_error (cause : Fault) :
    (orFault (.error cause) : Except (Failure ε) β) = .error (.fault cause) := rfl

@[simp] theorem orError_ok (b : β) : (orError (.ok b) : Except (Failure ε) β) = .ok b := rfl

@[simp] theorem orError_error (cause : ε) :
    (orError (.error cause) : Except (Failure ε) β) = .error (.error cause) := rfl

theorem orError_eq_ok {x : Except ε β} {b : β} : orError x = .ok b ↔ x = .ok b := by
  cases x <;> simp

theorem orError_eq_error {x : Except ε β} {cause : ε} :
    orError x = .error (.error cause) ↔ x = .error cause := by
  cases x <;> simp

theorem orError_ne_fault (x : Except ε β) (cause : Fault) : orError x ≠ .error (.fault cause) := by
  cases x <;> simp

theorem orFault_eq_ok {x : Except Fault β} {b : β} :
    (orFault x : Except (Failure ε) β) = .ok b ↔ x = .ok b := by
  cases x <;> simp

theorem orFault_eq_fault {x : Except Fault β} {cause : Fault} :
    (orFault x : Except (Failure ε) β) = .error (.fault cause) ↔ x = .error cause := by
  cases x <;> simp

theorem orFault_ne_error (x : Except Fault β) (cause : ε) :
    (orFault x : Except (Failure ε) β) ≠ .error (.error cause) := by
  cases x <;> simp

end DualRecovery
