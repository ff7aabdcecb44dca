import DualRecovery.Scalar

/-! The settings of the recovery. -/

namespace DualRecovery

open Scalar

/-- `rayPolicy` is any text, of which `validate` admits two. -/
structure Settings (α : Type) where
  /-- What becomes of the constant of a function that is evaluated at a ray. -/
  rayPolicy : String
  /-- Coefficients of at most this magnitude count as zero. -/
  zeroTolerance : α
  deriving BEq, DecidableEq, Repr

inductive SettingsError where
  | badValue (field : String)
  deriving DecidableEq, Repr

def SettingsError.message : SettingsError → String
  | badValue field => "Bad value for field \"" ++ field ++ "\""

namespace Settings

/-- A ray is evaluated like a point. -/
def evaluatePolicy : String := "evaluate"

/-- A ray is evaluated without the constant. -/
def omitConstantPolicy : String := "drop_constant"

def checkPolicy (policy : String) : Except SettingsError Unit :=
  if policy = evaluatePolicy ∨ policy = omitConstantPolicy then .ok ()
  else .error (.badValue "primal_ray_policy")

variable {α : Type} [Scalar α]

def checkTolerance (tolerance : α) : Except SettingsError Unit :=
  if isFinite tolerance ∧ 0 ≤ tolerance then .ok ()
  else .error (.badValue "zero_coefficient_tol")

def validate (s : Settings α) : Except SettingsError Unit := do
  checkPolicy s.rayPolicy
  checkTolerance s.zeroTolerance

/-- Rays are evaluated like points, and only zero counts as zero. -/
def default : Settings α := ⟨evaluatePolicy, 0⟩

/-- The default settings with the given fields in place of theirs, valid or not. -/
def withFields (policy : Option String) (tolerance : Option α) : Settings α :=
  ⟨policy.getD evaluatePolicy, tolerance.getD 0⟩

/-- The default settings with the given fields in place of theirs, if those are valid. -/
def build (policy : Option String) (tolerance : Option α) : Except SettingsError (Settings α) := do
  policy.forM checkPolicy
  tolerance.forM checkTolerance
  return withFields policy tolerance

def omitsRayConstant (s : Settings α) : Bool := s.rayPolicy == omitConstantPolicy

end Settings

end DualRecovery
