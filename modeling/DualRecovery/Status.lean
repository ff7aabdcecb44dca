/-! What a solver says of a result, and the sense of the objective. -/

namespace DualRecovery

inductive Status where
  | noSolution
  | feasiblePoint
  | nearlyFeasiblePoint
  | infeasiblePoint
  | infeasibilityCertificate
  | nearlyInfeasibilityCertificate
  | unknown
  deriving DecidableEq, Repr

namespace Status

/-- A ray is a direction; it certifies that the other side is infeasible. -/
def isRay : Status → Bool
  | .infeasibilityCertificate | .nearlyInfeasibilityCertificate => true
  | _ => false

end Status

/-- Duals follow the convention of minimization, whatever the sense. -/
inductive Sense where
  | minimize
  | maximize
  | feasibility
  deriving DecidableEq, Repr

end DualRecovery
