import TensorLowering.Numeric.Shortest
import TensorLowering.Text.Characters
import TensorLowering.Json.Record
import TensorLowering.Json.Reader
import TensorLowering.Json.Printer
import TensorLowering.NameMap
import TensorLowering.Fault
import TensorLowering.Spec.Document
import TensorLowering.Primitive.Basic
import TensorLowering.Tensor.Basic
import TensorLowering.Tensor.Indexing
import TensorLowering.Tensor.Elementwise
import TensorLowering.Tensor.Product
import TensorLowering.Tensor.Layout
import TensorLowering.Tensor.Reduction
import TensorLowering.Overlay.Table
import TensorLowering.Config.Document
import TensorLowering.Config.Environment
import TensorLowering.Profile
import TensorLowering.Graph.Assembly
import TensorLowering.Graph.ConstantPath
import TensorLowering.Graph.Document
import TensorLowering.Topology.Encoding
import TensorLowering.Topology.Schedule
import TensorLowering.Lowering.Registry
import TensorLowering.Lowering.Lowerer
import TensorLowering.Program.Execution
import TensorLowering.Engine.Reference
import TensorLowering.Evaluation
import TensorLowering.Proofs.Outcome
import TensorLowering.Proofs.Topology.Index
import TensorLowering.Proofs.Topology.Schedule
import TensorLowering.Proofs.Lowering.Build
import TensorLowering.Proofs.Lowering.Emission
import TensorLowering.Proofs.Lowering.History
import TensorLowering.Proofs.Program.Compilation
import TensorLowering.Proofs.Graph.Assembly
import TensorLowering.Proofs.Lowering.Order
import TensorLowering.Proofs.Lowering.Support
import TensorLowering.Proofs.Lowering.Opset
import TensorLowering.Proofs.Lowering.Routing
import TensorLowering.Proofs.Tensor.Indexing
import TensorLowering.Proofs.Tensor.Layout
import TensorLowering.Proofs.Tensor.Product
import TensorLowering.Proofs.Program.Valuation
import TensorLowering.Proofs.Evaluation
import TensorLowering.Proofs.Lowering.Naming
import TensorLowering.Proofs.Lowering.Computation
import TensorLowering.Proofs.Lowering.Meaning
import TensorLowering.Proofs.Primitive.Encoding
import TensorLowering.Proofs.Topology.Fingerprint
import TensorLowering.Proofs.Program.Cache
import TensorLowering.Proofs.NameMap
import TensorLowering.Proofs.Program.Outputs
import TensorLowering.Proofs.Lowering.Outputs
import TensorLowering.Proofs.Lowering.Identifiers
import TensorLowering.Proofs.Lowering.Acceptance
import TensorLowering.Proofs.Program.InsertionOrder
import TensorLowering.Proofs.ConstantValues
import TensorLowering.Proofs.Graph.ConstantPath
import TensorLowering.Proofs.Graph.Walk
import TensorLowering.Proofs.Graph.Requests
import TensorLowering.Proofs.Returns
import TensorLowering.Proofs.Tensor.Bounds
import TensorLowering.Proofs.Tensor.Kernels
import TensorLowering.Proofs.Program.Safety
import TensorLowering.Proofs.Lowering.Returns
import TensorLowering.Proofs.Lowering.Safety
import TensorLowering.Proofs.Topology.Queue
import TensorLowering.Proofs.Tensor.Causes
import TensorLowering.Proofs.Topology.Cycle
import TensorLowering.Proofs.Program.Causes
import TensorLowering.Proofs.Profile
import TensorLowering.Proofs.Program.Profiling
import TensorLowering.Proofs.Lowering.Profiling
import TensorLowering.Proofs.Lowering.Consistency
import TensorLowering.Proofs.Overlay.Grammar
import TensorLowering.Proofs.Overlay.WorkSize
import TensorLowering.Proofs.Overlay.Extents
import TensorLowering.Proofs.Tensor.Transpose
import TensorLowering.Proofs.Tensor.Entries
import TensorLowering.Proofs.Tensor.Broadcast
import TensorLowering.Proofs.Tensor.Spreading
import TensorLowering.Proofs.Tensor.Numbering
import TensorLowering.Proofs.Tensor.Elementwise
import TensorLowering.Proofs.Tensor.Partition
import TensorLowering.Proofs.Tensor.Permutation
import TensorLowering.Proofs.Tensor.Concatenation
import TensorLowering.Proofs.Tensor.MatrixProduct
import TensorLowering.Proofs.Tensor.Axes
import TensorLowering.Proofs.Tensor.Reduction
import TensorLowering.Proofs.Tensor.FullyConnected
import TensorLowering.Proofs.Bytes
import TensorLowering.Proofs.Tensor.Literal
import TensorLowering.Proofs.Overlay.Precedence
import TensorLowering.Proofs.Lowering.Extension
import TensorLowering.Proofs.Json.RoundTrip
import TensorLowering.Proofs.Json.Fields
import TensorLowering.Proofs.Graph.Document
