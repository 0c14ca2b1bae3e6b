import TensorLowering.Graph.Basic

/-! # Operation sets

The kinds of operations that have a lowering of their own. Reductions share a generic kind, through
which they are lowered. -/

namespace TensorLowering.Opset

/-- A value supplied when the program runs. -/
def parameter : OpKind := ⟨"Parameter", "opset1"⟩

/-- A value stored in the graph. -/
def constant : OpKind := ⟨"Constant", "opset1"⟩

/-- A value handed out by the program. -/
def result : OpKind := ⟨"Result", "opset1"⟩

/-- The product of two batches of matrices. -/
def matMul : OpKind := ⟨"MatMul", "opset1"⟩

/-- The product with the transpose of constant weights. -/
def fullyConnected : OpKind := ⟨"FullyConnected", "internal"⟩

/-- The product with the transpose of constant weights that are stored scaled and shifted. -/
def fullyConnectedCompressed : OpKind := ⟨"FullyConnectedCompressed", "internal"⟩

/-- The binary elementwise operations. -/
def elementwise : List OpKind :=
  ["Add", "Subtract", "Multiply", "Divide", "SquaredDifference", "Power", "FloorMod", "Mod", "Maximum",
   "Minimum"].map (⟨·, "opset1"⟩)

/-- The error function of every element. -/
def erf : OpKind := ⟨"Erf", "opset1"⟩

/-- What all reductions are. -/
def reduction : OpKind := ⟨"ArithmeticReductionKeepDims", "util"⟩

/-- The reductions. -/
def reductions : List OpKind :=
  [⟨"ReduceSum", "opset1"⟩, ⟨"ReduceMean", "opset1"⟩, ⟨"ReduceMax", "opset1"⟩, ⟨"ReduceMin", "opset1"⟩,
   ⟨"ReduceProd", "opset1"⟩, ⟨"ReduceL1", "opset4"⟩, ⟨"ReduceL2", "opset4"⟩]

/-- Cuts a tensor into equal parts. -/
def split : OpKind := ⟨"Split", "opset1"⟩

/-- Cuts a tensor into parts of given lengths. -/
def variadicSplit : OpKind := ⟨"VariadicSplit", "opset1"⟩

/-- Permutes the axes. -/
def transpose : OpKind := ⟨"Transpose", "opset1"⟩

/-- Changes the sizes. -/
def reshape : OpKind := ⟨"Reshape", "opset1"⟩

/-- Joins tensors along an axis. -/
def concat : OpKind := ⟨"Concat", "opset1"⟩

/-- All kinds except the individual reductions. -/
def basic : List OpKind :=
  [parameter, constant, result, matMul, fullyConnected, fullyConnectedCompressed] ++ elementwise ++
    [erf, reduction, split, variadicSplit, transpose, reshape, concat]

/-- The type of an operation of the set, by name. A reduction also is of the generic kind. -/
def type? (name : String) : Option OpType :=
  match reductions.find? (·.name == name) with
  | some kind => some ⟨[kind, reduction]⟩
  | none => (basic.find? (·.name == name)).map .single

end TensorLowering.Opset

namespace TensorLowering.Node

open Opset

/-- True for the operations that always become one primitive for each output. -/
def isSplit (n : Node) : Bool := n.isA split || n.isA variadicSplit

/-- The greatest rank that the legacy shape inference handles. -/
def maxLegacyRank : Nat := 6

/-- True when the node can only be lowered with the new shape inference: it has a symbolic extent,
compressed weights, or an input or output of high rank. -/
def needsNewShapeInference (n : Node) : Bool :=
  n.isDynamic || n.isA fullyConnectedCompressed || n.types.any fun t => maxLegacyRank < t.shape.rank

end TensorLowering.Node
