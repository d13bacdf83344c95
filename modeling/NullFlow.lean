import NullFlow.Body.Draft
import NullFlow.FlowGraph.Format
import NullFlow.Main
import NullFlow.Proofs.Body.Events
import NullFlow.Proofs.Body.Nesting
import NullFlow.Proofs.Body.Verdicts
import NullFlow.Proofs.Body.Search
import NullFlow.Proofs.Body.Safety
import NullFlow.Proofs.Body.LiveCode
import NullFlow.Proofs.Analysis.Comparison
import NullFlow.Proofs.Analysis.Convergence
import NullFlow.Proofs.Analysis.Equations
import NullFlow.Proofs.Analysis.Absorption
import NullFlow.Proofs.Analysis.Framing
import NullFlow.Proofs.Body.HiddenMarks
import NullFlow.Proofs.Body.Methods
import NullFlow.Proofs.Body.Solutions
import NullFlow.Proofs.Body.Caps
import NullFlow.Proofs.Body.LeastSolutions
import NullFlow.Proofs.Body.NullReceivers
import NullFlow.Proofs.Run.ExitCode
import NullFlow.Proofs.Run.Findings
import NullFlow.Proofs.Run.HiddenHints
import NullFlow.Proofs.Body.ByNumber
import NullFlow.Proofs.Body.DeadCode
import NullFlow.Proofs.Run.Loading
import NullFlow.Proofs.Body.Overwriting
import NullFlow.Proofs.Body.Aliases
import NullFlow.Proofs.Body.Locality
import NullFlow.Proofs.Body.Monotonicity
import NullFlow.Proofs.Body.SuppressedMarks
import NullFlow.Proofs.Body.InferredMarks
import NullFlow.Proofs.Body.CallResults
import NullFlow.Proofs.Body.WrittenShapes
import NullFlow.Proofs.Types.BaseClasses
import NullFlow.Proofs.Types.Agreement
import NullFlow.Proofs.Body.LambdaArguments
import NullFlow.Proofs.Store.Forest
import NullFlow.Proofs.Store.Semilattice
import NullFlow.Proofs.Analysis.StrongUpdates
import NullFlow.Proofs.Analysis.Initializers
import NullFlow.Proofs.Body.SeededMembers
import NullFlow.Proofs.Body.Negations
import NullFlow.Proofs.Diagnostic.CanonicalForms
import NullFlow.Proofs.Diagnostic.Sorting
import NullFlow.Proofs.Report.Positions
import NullFlow.Proofs.Body.Construction
