import TensorLowering.Graph.ConstantPath
import TensorLowering.Lowering.Rule.Basic

/-! # Matrix products

A matrix product becomes a product primitive. Where it is likely to pay off, the operands are
transposed by permutations in front of it; the numbers are the same either way. Under the legacy
inference a product of less than four axes is followed by a reshape.

A fully connected layer is the product of an input with transposed weights. Weights, and the scale
and zero point of compressed ones, must be computable from constants. -/

namespace TensorLowering

namespace Shape

/-- True when the last two extents are known sizes for which `p` holds. -/
def trailingPair (s : Shape) (p : Nat → Bool) : Bool :=
  match s.trailing? 2 with
  | some extents => extents.all fun e => e.size?.any p
  | none => false

end Shape

/-- Whether the operands of a product are transposed in front of it. That needs a flag and operands
with known sizes and at least two axes that are not both aligned; it is done for two operands with
large last axes, and for a very large operand unless the device handles it well. -/
def MatMulTuning.movesTransposes (t : MatMulTuning) (a b : Shape) (transposeA transposeB : Bool)
    (element : ElementType) (integerProducts : Bool) : Bool :=
  let shapes := [a, b]
  let aligned := shapes.all (·.trailingPair fun size => t.alignment != 0 && size % t.alignment == 0)
  let bothLarge := shapes.all (·.trailingPair fun size => t.largeExtent ≤ size)
  let veryLarge := shapes.any fun s => s.elementCount?.any (t.largeCount < ·)
  (transposeA || transposeB) && shapes.all (fun s => !s.isDynamic && 2 ≤ s.rank) && !aligned &&
    (bothLarge || veryLarge && !element.isByteInteger && !integerProducts)

namespace Rule

/-- From this rank on a product needs no reshape under the legacy inference. -/
def nativeProductRank : Nat := 4

/-- The permutation in front of an operand, if it is to be moved, and what the product reads. -/
def moveTranspose (n : Node) (moved : Bool) (side : String) (shape : Shape) (input : Source) :
    Emission × Source :=
  if moved then
    let id := n.name ++ side
    let permutation : Outcome LoweringError Primitive := do
      pure (.new id (.permute (← .ofOption (swapLastTwo? shape.rank))) [input])
    ([permutation], ⟨id, 0⟩)
  else ([], input)

/-- The reshape behind a product under the legacy inference. -/
def productReshape (n : Node) (identity : String) : Outcome LoweringError (Option Primitive) := do
  let sizes ← n.staticSizes (← n.outputType 0).shape "output"
  pure (if sizes.length < nativeProductRank then
    some (.new (identity ++ "_out_reshape") (.reshape (some sizes)) [⟨identity, 0⟩])
  else none)

/-- A matrix product. -/
def matMul : Rule := .ofEmission fun ctx ids n => do
  n.checkArity [2]
  let inputs ← ctx.inputs ids n
  let identity ← n.identity
  let a ← n.inputType 0
  let b ← n.inputType 1
  let transposeA := n.switch "transpose_a" false
  let transposeB := n.switch "transpose_b" false
  let moves := ctx.config.matmul.movesTransposes a.shape b.shape transposeA transposeB a.element
    ctx.device.integerProducts
  let (stepsA, inputA) := moveTranspose n (moves && transposeA) "/transpose_a" a.shape
    (← .ofOption inputs[0]?)
  let (stepsB, inputB) := moveTranspose n (moves && transposeB) "/transpose_b" b.shape
    (← .ofOption inputs[1]?)
  let product : Outcome LoweringError Primitive := do
    let spec : GemmSpec := {
      element := (← n.outputType 0).element
      transposeA := transposeA && !moves
      transposeB := transposeB && !moves
      alpha := .one
      beta := .zero
      inputRank := a.shape.rank
      weightRank := b.shape.rank }
    pure (.new identity (.gemm spec) [inputA, inputB])
  let reshape : Emission :=
    if ctx.newShapeInference then []
    else
      match productReshape n identity with
      | .ok (some p) => [.ok p]
      | .ok none => []
      | .error fault => [.error fault]
  pure (stepsA ++ stepsB ++ [product] ++ reshape)

/-- Checks that an input is computable from constants. -/
def checkConstantPath (ctx : BuildContext) (n : Node) (input : Nat) (what : String) :
    Outcome LoweringError Unit := do
  let edge ← .ofOption n.inputs[input]?
  let isConstant ← .ofOption (ctx.graph.isOnConstantPath? edge.node)
  if isConstant then pure () else n.failParameter (.notFromConstants what)

/-- A layer with plain weights. -/
def fullyConnected : Rule := .ofEmission fun ctx ids n => do
  n.checkArity [2]
  checkConstantPath ctx n 1 "weights"
  let inputs ← ctx.inputs ids n
  pure [.ok (.new (← n.identity) (.fullyConnected false false (← n.outputType 0).element) inputs)]

/-- A layer with compressed weights, their scale, and possibly their zero point. -/
def fullyConnectedCompressed : Rule := .ofEmission fun ctx ids n => do
  n.checkArity [3, 4]
  checkConstantPath ctx n 1 "weights"
  checkConstantPath ctx n 2 "decompression scale"
  if 3 < n.inputs.length then checkConstantPath ctx n 3 "decompression zero point"
  let inputs ← ctx.inputs ids n
  let payload := .fullyConnected true (n.inputs.length = 4) (← n.outputType 0).element
  pure [.ok (.new (← n.identity) payload inputs)]

end Rule

end TensorLowering
