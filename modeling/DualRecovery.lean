import DualRecovery.Scalar
import DualRecovery.Failure
import DualRecovery.Word
import DualRecovery.Vector.PairwiseSum
import DualRecovery.Vector.Basic
import DualRecovery.Vector.Triangle
import DualRecovery.Kind
import DualRecovery.Index
import DualRecovery.Value
import DualRecovery.Status
import DualRecovery.QueryError
import DualRecovery.ConstraintSet
import DualRecovery.InnerProduct
import DualRecovery.ModelFunction.Basic
import DualRecovery.ModelFunction.Evaluate
import DualRecovery.ModelFunction.Coefficient
import DualRecovery.Backend
import DualRecovery.Assignment
import DualRecovery.Store.Basic
import DualRecovery.Store.Update
import DualRecovery.Store.Command
import DualRecovery.Table
import DualRecovery.Arena.Basic
import DualRecovery.Arena.Update
import DualRecovery.Arena.Command
import DualRecovery.Settings
import DualRecovery.Recovery.Error
import DualRecovery.Trace.Event
import DualRecovery.Trace.Traced
import DualRecovery.Recovery.ReportedDual
import DualRecovery.Recovery.ReducedCost
import DualRecovery.Recovery.DualObjective
import DualRecovery.Recovery.Quantities
import DualRecovery.Decimal.Binary
import DualRecovery.Decimal.Shortest
import DualRecovery.Decimal.Text
import DualRecovery.Proofs.Comparison
import DualRecovery.Proofs.Rational
import DualRecovery.Proofs.InnerProduct
import DualRecovery.Proofs.Arithmetic
import DualRecovery.Proofs.Vector.PairwiseSum
import DualRecovery.Proofs.Vector.Difference
import DualRecovery.Proofs.Binary.Packing
import DualRecovery.Proofs.Binary.Rounding
import DualRecovery.Proofs.Binary.Arithmetic
import DualRecovery.Proofs.Trace.Returns
import DualRecovery.Proofs.Trace.Agrees
import DualRecovery.Proofs.Trace.Meets
import DualRecovery.Proofs.Trace.Stages
import DualRecovery.Proofs.ModelFunction.Occurrences
import DualRecovery.Proofs.ModelFunction.Coefficient
import DualRecovery.Proofs.ModelFunction.Rows
import DualRecovery.Proofs.ModelFunction.Shape
import DualRecovery.Proofs.ModelFunction.Constants
import DualRecovery.Proofs.Store.Validity
import DualRecovery.Proofs.Store.Numbering
import DualRecovery.Proofs.Store.Effect
import DualRecovery.Proofs.Store.Attained
import DualRecovery.Proofs.Store.Overflow
import DualRecovery.Proofs.Recovery.Adjoint
import DualRecovery.Proofs.Recovery.ReducedCost
import DualRecovery.Proofs.Recovery.Stationarity
import DualRecovery.Proofs.Recovery.Pairing
import DualRecovery.Proofs.Recovery.DualObjective
import DualRecovery.Proofs.Recovery.DualityGap
import DualRecovery.Proofs.Recovery.Safety
import DualRecovery.Proofs.Recovery.Reporting
import DualRecovery.Proofs.Recovery.Queries
import DualRecovery.Proofs.Recovery.Order
import DualRecovery.Proofs.Recovery.Opposite
import DualRecovery.Proofs.Recovery.Rows
import DualRecovery.Proofs.Recovery.Split
import DualRecovery.Proofs.Recovery.Locality
import DualRecovery.Proofs.Recovery.DualTerm
import DualRecovery.Proofs.Recovery.NotANumber
import DualRecovery.Proofs.Recovery.Inactive
import DualRecovery.Proofs.Recovery.Rays
import DualRecovery.Proofs.Store.Split
import DualRecovery.Proofs.Store.Omission
import DualRecovery.Proofs.Arena.Refinement
import DualRecovery.Proofs.Arena.Enumeration
import DualRecovery.Proofs.Arena.Results
import DualRecovery.Proofs.Arena.Safety
import DualRecovery.Proofs.Arena.Reporting
import DualRecovery.Proofs.Arena.Opposite
import DualRecovery.Proofs.Arena.Split
import DualRecovery.Proofs.Arena.Isolation
import DualRecovery.Proofs.Arena.NotANumber
import DualRecovery.Proofs.Arena.Inactive
import DualRecovery.Proofs.InnerProduct.Matrix
import DualRecovery.Proofs.InnerProduct.Representation
import DualRecovery.Proofs.ModelFunction.Affine
import DualRecovery.Proofs.ModelFunction.Quadratic
import DualRecovery.Proofs.ModelFunction.Variables
import DualRecovery.Proofs.Trace.Asks
import DualRecovery.Proofs.Recovery.Availability
import DualRecovery.Proofs.Recovery.Tolerance
import DualRecovery.Proofs.Arena.Refusal
import DualRecovery.Proofs.Arena.Availability
import DualRecovery.Proofs.Arena.Tolerance
import DualRecovery.Proofs.Trace.Steps
import DualRecovery.Proofs.Recovery.Steps
import DualRecovery.Proofs.Recovery.Events
import DualRecovery.Proofs.Arena.Mismatch
