import TensorLowering.Graph.Opset
import TensorLowering.NameMap
import TensorLowering.Primitive.Basic
import TensorLowering.Spec.Shape
import TensorLowering.Tensor.Elementwise
import TensorLowering.Tensor.Layout
import TensorLowering.Tensor.Product
import TensorLowering.Tensor.Reduction

/-! # Evaluating graphs

The meaning of a graph, node by node and without lowering it. What an operation computes is decided
by the name of its kind; its inputs are the values of earlier nodes. -/

namespace TensorLowering

namespace Evaluation

/-- A node that is evaluated: with the name of its kind, and the values that it reads. -/
structure Call where
  node : Node
  kind : String
  args : List Tensor

namespace Call

/-- Ends because the node cannot be evaluated. -/
def fail {α : Type} (c : Call) (cause : EvaluationError) : Outcome EngineError α :=
  failExecution (.evaluation c.node.name c.kind cause)

/-- One of the values that the node reads. -/
def arg (c : Call) (index : Nat) : Outcome EngineError Tensor :=
  match c.args[index]? with
  | some t => .ok t
  | none => c.fail (.missingInput index)

/-- The position of an axis. -/
def axisPosition (c : Call) (axis : Int64) (rank : Nat) : Outcome EngineError Nat :=
  match axisPosition? axis.toInt rank with
  | some position => .ok position
  | none => c.fail (.axisOutOfRange axis.toInt rank)

/-- The elements of an integer tensor. -/
def integers (c : Call) (t : Tensor) : Outcome EngineError (List Int64) :=
  match t.integers? with
  | some values => .ok values
  | none => c.fail .notInteger

/-- The sizes of an output type. -/
def sizesOf (c : Call) (type : TensorType) : Outcome EngineError (List Nat) :=
  match type.shape.sizes? with
  | some sizes => .ok sizes
  | none => c.fail .outputNotStatic

/-- The parts of a split that start at `offset`, one for each output. -/
def parts (c : Call) (input : Tensor) (axis : Nat) :
    Nat → List TensorType → Outcome EngineError (List Tensor)
  | _, [] => .ok []
  | offset, type :: rest => do
    let length ← .ofOption (← c.sizesOf type)[axis]?
    let part ← input.crop axis offset length
    pure (part :: (← parts c input axis (wrap (offset + length)) rest))

/-- A reduction over the axes in the second input. -/
def reduce (c : Call) (mode : ReduceMode) : Outcome EngineError Tensor := do
  let input ← c.arg 0
  let values ← c.integers (← c.arg 1)
  let axes ← values.mapM fun axis => c.axisPosition axis input.rank
  input.reduce mode (axisSet axes) (c.node.switch "keep_dims" false)

/-- A matrix product. -/
def matMul (c : Call) : Outcome EngineError Tensor := do
  let a ← c.arg 0
  let b ← c.arg 1
  Tensor.gemm a b {
    element := .f32
    transposeA := c.node.switch "transpose_a" false
    transposeB := c.node.switch "transpose_b" false
    alpha := .one
    beta := .zero
    inputRank := a.rank
    weightRank := b.rank }

/-- A split along the first axis in the second input. -/
def split (c : Call) : Outcome EngineError (List Tensor) := do
  let input ← c.arg 0
  let values ← c.integers (← c.arg 1)
  let some axis := values.head?
    | c.fail .emptySplitAxis
  c.parts input (← c.axisPosition axis input.rank) 0 c.node.outputs

/-- A transpose by the order in the second input; without one all axes are reversed. -/
def transpose (c : Call) : Outcome EngineError Tensor := do
  let input ← c.arg 0
  let order ← match c.args[1]? with
    | some order => do (← c.integers order).mapM fun axis => c.axisPosition axis input.rank
    | none => pure (List.range input.rank).reverse
  input.permute order

/-- A concatenation. -/
def concat (c : Call) : Outcome EngineError Tensor := do
  let first ← c.arg 0
  let some axis := c.node.int? "axis"
    | c.fail .missingAxis
  Tensor.concat c.args (← c.axisPosition axis first.rank)

/-- The values of the outputs of a node. -/
def outputs (c : Call) (erf : ErrorFunction) (inputs : NameMap Tensor) :
    Outcome EngineError (List Tensor) := do
  match EltwiseMode.ofName? c.kind, ReduceMode.ofName? c.kind with
  | some mode, _ => pure [← Tensor.eltwise mode (← c.arg 0) (← c.arg 1)]
  | none, some mode => pure [← c.reduce mode]
  | none, none =>
    match c.kind with
    | "Parameter" =>
      match inputs.get? c.node.name with
      | some t => pure [t]
      | none => c.fail .noValueSupplied
    | "Constant" =>
      match c.node.value with
      | some literal => pure [← Tensor.ofLiteral literal]
      | none => c.fail .constantWithoutPayload
    | "Result" => pure [← c.arg 0]
    | "Erf" => pure [← (← c.arg 0).erf erf]
    | "MatMul" => pure [← c.matMul]
    | "FullyConnected" => pure [← Tensor.fullyConnected (← c.arg 0) (← c.arg 1) none none]
    | "FullyConnectedCompressed" => do
      pure [← Tensor.fullyConnected (← c.arg 0) (← c.arg 1) (some (← c.arg 2)) c.args[3]?]
    | "Split" | "VariadicSplit" => c.split
    | "Transpose" => pure [← c.transpose]
    | "Reshape" => do
      let input ← c.arg 0
      pure [← input.reshape (← c.sizesOf (← .ofOption c.node.outputs[0]?))]
    | "Concat" => pure [← c.concat]
    | other => failExecution (.noReference other)

end Call

/-- The values of the nodes so far, and of the results among them. -/
structure Progress where
  values : List (List Tensor)
  results : NameMap Tensor

/-- The value that an edge reads. -/
def Progress.read? (s : Progress) (e : Edge) : Option Tensor :=
  s.values[e.node]?.bind fun outputs => outputs[e.output]?

/-- The values that a node reads, which must all be there. -/
def Progress.call (s : Progress) (n : Node) : Outcome EngineError Call := do
  let kind := (← .ofOption n.kind?).name
  let args ← n.inputs.mapM fun e =>
    match s.read? e with
    | some t => .ok t
    | none => failExecution (.evaluation n.name kind .outOfOrder)
  pure ⟨n, kind, args⟩

/-- Evaluates one node. -/
def step (erf : ErrorFunction) (inputs : NameMap Tensor) (s : Progress) (n : Node) :
    Outcome EngineError Progress := do
  let c ← s.call n
  let outputs ← c.outputs erf inputs
  let results := match c.kind, outputs with
    | "Result", [value] => s.results.insert n.name value
    | _, _ => s.results
  pure ⟨s.values ++ [outputs], results⟩

end Evaluation

/-- The results of a graph by name, given an error function and the values of its parameters by
name. -/
def Graph.evaluate (g : Graph) (erf : ErrorFunction) (inputs : NameMap Tensor) :
    Outcome EngineError (NameMap Tensor) := do
  let final ← g.nodes.foldlM (Evaluation.step erf inputs) ⟨[], .empty⟩
  pure final.results

end TensorLowering
