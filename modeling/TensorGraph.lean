import TensorGraph.Text.Case
import TensorGraph.Text.Quoted
import TensorGraph.Text.Numeral
import TensorGraph.Text.Utf8
import TensorGraph.Binary.Elementary
import TensorGraph.Binary.Decimal
import TensorGraph.DType
import TensorGraph.Fault
import TensorGraph.Scalar
import TensorGraph.Tensor.Build
import TensorGraph.DType.Read
import TensorGraph.Dim.Lattice
import TensorGraph.Fact.Rule
import TensorGraph.Operator
import TensorGraph.Op.Elementwise
import TensorGraph.Op.Reshape
import TensorGraph.Op.Join
import TensorGraph.Op.Slice
import TensorGraph.Op.Axes
import TensorGraph.Op.Cast
import TensorGraph.Op.Reduction
import TensorGraph.Op.Convolution
import TensorGraph.Op.Pooling
import TensorGraph.Registry
import TensorGraph.Settings
import TensorGraph.Graph.Basic
import TensorGraph.Graph.Search
import TensorGraph.Graph.Build
import TensorGraph.Graph.Table
import TensorGraph.Analysis
import TensorGraph.Analysis.Propagation
import TensorGraph.Plan
import TensorGraph.Plan.Run
import TensorGraph.Model
import TensorGraph.Model.Lowering
import TensorGraph.Proofs.Fact.Acceptance
import TensorGraph.Proofs.Graph.Construction
import TensorGraph.Proofs.Analysis.Soundness
import TensorGraph.Proofs.Graph.Order
import TensorGraph.Proofs.Plan.Meaning
import TensorGraph.Proofs.Plan.Binding
import TensorGraph.Proofs.Plan.Refinement
import TensorGraph.Proofs.Graph.Acyclic
import TensorGraph.Proofs.Plan.Folding
import TensorGraph.Proofs.Fact.Order
import TensorGraph.Proofs.Fact.Monotone
import TensorGraph.Proofs.Op.Monotone
import TensorGraph.Proofs.Fact.Backward
import TensorGraph.Proofs.Op.Settled
import TensorGraph.Proofs.Analysis.Fixpoint
import TensorGraph.Proofs.Analysis.Comparison
import TensorGraph.Proofs.Fact.Height
import TensorGraph.Proofs.Analysis.Convergence
import TensorGraph.Proofs.Analysis.Orders
import TensorGraph.Proofs.Analysis.Termination
import TensorGraph.Proofs.Graph.Loops
import TensorGraph.Proofs.Graph.Calls
import TensorGraph.Proofs.Shape.Stretch
import TensorGraph.Proofs.Fact.Sound
import TensorGraph.Proofs.Op.Sound.Elementwise
import TensorGraph.Proofs.Op.Sound.Axes
import TensorGraph.Proofs.Op.Sound.Join
import TensorGraph.Proofs.Op.Sound.Reshape
import TensorGraph.Proofs.Op.Sound.Product
import TensorGraph.Proofs.Op.Sound.Window
import TensorGraph.Proofs.Op.Sound
import TensorGraph.Proofs.Plan.Live
import TensorGraph.Proofs.Analysis.History
import TensorGraph.Proofs.Tensor.Equality
import TensorGraph.Proofs.Fact.Refinement
import TensorGraph.Proofs.Fact.Exact
import TensorGraph.Proofs.Op.Exact.Elementwise
import TensorGraph.Proofs.Op.Exact.Axes
import TensorGraph.Proofs.Op.Exact.Join
import TensorGraph.Proofs.Op.Exact.Product
import TensorGraph.Proofs.Op.Exact.Reshape
import TensorGraph.Proofs.Op.Exact.Window
import TensorGraph.Proofs.Op.Exact
import TensorGraph.Proofs.Analysis.Failures
import TensorGraph.Proofs.Analysis.Constants
import TensorGraph.Proofs.Fact.Told
import TensorGraph.Proofs.Op.Meets
import TensorGraph.Proofs.Plan.Safety
import TensorGraph.Proofs.Model.Reordering
import TensorGraph.Proofs.Model.Hygiene
import TensorGraph.Proofs.Graph.Scheduling
import TensorGraph.Proofs.Analysis.Inputs
import TensorGraph.Proofs.Plan.Failures
import TensorGraph.Proofs.Op.Wrapped
import TensorGraph.Proofs.Graph.Validation
import TensorGraph.Proofs.Graph.Rewiring
import TensorGraph.Proofs.Op.Reshaping
import TensorGraph.Proofs.Graph.Relabelling
import TensorGraph.Proofs.Model.Titles
import TensorGraph.Proofs.Model.Labels
import TensorGraph.Proofs.Model.Renaming
import TensorGraph.Proofs.Fact.Broadcast
import TensorGraph.Proofs.Op.Geometry
import TensorGraph.Proofs.Op.Declared
import TensorGraph.Proofs.Op.Grouped
import TensorGraph.Proofs.Op.Layouts
import TensorGraph.Proofs.Op.Pooled
import TensorGraph.Proofs.Op.Divided
import TensorGraph.Proofs.Op.Regrouped
import TensorGraph.Proofs.Op.Means
import TensorGraph.Proofs.Op.Resolution
import TensorGraph.Proofs.Plan.Frame
import TensorGraph.Proofs.Op.Chained
import TensorGraph.Proofs.Analysis.Literals
import TensorGraph.Proofs.Model.Chains
import TensorGraph.Proofs.Shape.Axes
import TensorGraph.Proofs.Fact.Alike
import TensorGraph.Proofs.Op.Composed
import TensorGraph.Proofs.Op.Pieces
import TensorGraph.Proofs.Op.Stacked
import TensorGraph.Proofs.Analysis.Applied
import TensorGraph.Proofs.Plan.Stale
