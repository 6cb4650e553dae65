import FuzzyControl.Grid
import FuzzyControl.Fault.Message
import FuzzyControl.FuzzySet.Algebra
import FuzzyControl.FuzzySet.Crisp
import FuzzyControl.FuzzySet.Lookup
import FuzzyControl.Json.Shapes
import FuzzyControl.Controller.Run
import FuzzyControl.Controller.Solve
import FuzzyControl.Proofs.Double.Order
import FuzzyControl.Proofs.Double.Alike
import FuzzyControl.Proofs.Double.Arithmetic
import FuzzyControl.Proofs.FuzzySet.Validity
import FuzzyControl.Proofs.FuzzySet.Union
import FuzzyControl.Proofs.Evaluation.Firing
import FuzzyControl.Proofs.Evaluation.Reference
import FuzzyControl.Proofs.Evaluation.RuleOrder
import FuzzyControl.Proofs.Evaluation.Validity
import FuzzyControl.Proofs.FuzzySet.Invariant
import FuzzyControl.Proofs.Rule.RoundTrip
import FuzzyControl.Proofs.Controller.History
import FuzzyControl.Proofs.Controller.Invariant
import FuzzyControl.Proofs.Evaluation.Faults
import FuzzyControl.Proofs.Controller.Diagnosis
import FuzzyControl.Proofs.Controller.References
import FuzzyControl.Proofs.Controller.WellPosed
import FuzzyControl.Proofs.Evaluation.Independence
import FuzzyControl.Proofs.Evaluation.Alternatives
import FuzzyControl.Proofs.Json.RoundTrip
import FuzzyControl.Proofs.Double.Operations
import FuzzyControl.Proofs.FuzzySet.Interpolation
import FuzzyControl.Proofs.Evaluation.Interpolation
import FuzzyControl.Proofs.Rule.Reading
import FuzzyControl.Proofs.Rule.Agreement
import FuzzyControl.Proofs.FuzzySet.Nearest
import FuzzyControl.Proofs.FuzzySet.Passing
import FuzzyControl.Proofs.FuzzySet.Points
import FuzzyControl.Proofs.FuzzySet.Brackets
import FuzzyControl.Proofs.Controller.Switching
import FuzzyControl.Proofs.FuzzySet.Levels
import FuzzyControl.Proofs.FuzzySet.Lattice
import FuzzyControl.Proofs.FuzzySet.Aggregation
import FuzzyControl.Proofs.FuzzySet.Cuts
import FuzzyControl.Proofs.Double.Sums
import FuzzyControl.Proofs.FuzzySet.ZeroHeight
import FuzzyControl.Proofs.Double.Means
import FuzzyControl.Proofs.Double.Errors
import FuzzyControl.Proofs.FuzzySet.Within
import FuzzyControl.Proofs.FuzzySet.Complement
import FuzzyControl.Proofs.Variable.Filing
import FuzzyControl.Proofs.Evaluation.MoreRules
import FuzzyControl.Proofs.Double.Counts
import FuzzyControl.Proofs.Grid.Points
import FuzzyControl.Proofs.Grid.Ends
import FuzzyControl.Proofs.Grid.Walks
import FuzzyControl.Proofs.FuzzySet.Scan
import FuzzyControl.Proofs.Scalar.Order
import FuzzyControl.Proofs.Connective.Joining
