import TensorLowering.Lowering.Rule.Basic

/-! # Rearrangements

Transposes, reshapes, concatenations and splits. A split becomes one crop for each output, each behind
the one before it. -/

namespace TensorLowering

namespace Rule

/-- The first axis of an order that is marked when its turn comes. Every other axis is marked at its
turn, and there has to be a mark for it. -/
def firstRepeated : List Bool → List Nat → Outcome LoweringError (Option Nat)
  | _, [] => pure none
  | marks, axis :: rest => do
    if ← .ofOption marks[axis]? then pure (some axis)
    else firstRepeated (marks.set axis true) rest

/-- The order of a transpose: a constant input, or without one the reverse of all axes. -/
def transposeOrder (ctx : BuildContext) (n : Node) (rank : Nat) : Outcome LoweringError (List Nat) := do
  if n.inputs.length = 2 then
    let values ← ctx.integerInput n 1 .permutationNotInteger
    values.mapM fun axis => n.axisPosition axis rank
  else pure (List.range rank).reverse

/-- A transpose becomes a permutation of all axes. -/
def transpose : Rule := .ofEmission fun ctx ids n => do
  n.checkArity [1, 2]
  let inputs ← ctx.inputs ids n
  let rank := (← n.inputType 0).shape.rank
  let order ← transposeOrder ctx n rank
  if order.length ≠ rank then n.failParameter (.permutationRank order rank)
  match ← firstRepeated (List.replicate rank false) order with
  | some axis => n.failParameter (.permutationRepeats order axis)
  | none => pure [.ok (.new (← n.identity) (.permute order) (inputs.take 1))]

/-- A reshape takes its sizes from its output type, and from its second input when they are not
known. -/
def reshape : Rule := .ofEmission fun ctx ids n => do
  n.checkArity [2]
  let inputs ← ctx.inputs ids n
  let sizes := (← n.outputType 0).shape.sizes?
  pure [.ok (.new (← n.identity) (.reshape sizes) (if sizes.isSome then inputs.take 1 else inputs))]

/-- A concatenation of one or more inputs. -/
def concat : Rule := .ofEmission fun ctx ids n => do
  if n.inputs = [] then .fail (.invalidArity (← n.label) 0 [])
  let inputs ← ctx.inputs ids n
  let some axis := n.int? "axis"
    | n.failParameter .missingAxis
  let position ← n.axisPosition axis (← n.outputType 0).shape.rank
  pure [.ok (.new (← n.identity) (.concatenation position) inputs)]

/-- The extent of an output of a split on its axis. -/
def splitLength (n : Node) (axis : Nat) (type : TensorType) : Outcome LoweringError Nat := do
  let sizes ← n.staticSizes type.shape "split output"
  .ofOption sizes[axis]?

/-- The crops of the outputs from number `output` on, which start at `offset`. -/
def crops (n : Node) (identity : String) (inputs : List Source) (axis : Nat) :
    Nat → Nat → List TensorType → Emission
  | _, _, [] => []
  | output, offset, type :: rest =>
    match splitLength n axis type with
    | .ok length =>
      .ok (.new (identity ++ outputSuffix output) (.crop axis offset length) inputs) ::
        crops n identity inputs axis (output + 1) (wrap (offset + length)) rest
    | .error fault => [.error fault]

/-- A split; the lengths of its parts are those of its outputs. -/
def split : Rule := .ofEmission fun ctx ids n => do
  n.checkArity (if n.isA Opset.variadicSplit then [3] else [2])
  let inputs ← ctx.inputs ids n
  let values ← ctx.integerInput n 1 .splitAxisNotInteger
  let some axis := values.head?
    | n.failParameter .splitAxisNotInteger
  let position ← n.axisPosition axis (← n.inputType 0).shape.rank
  pure (crops n (← n.identity) (inputs.take 1) position 0 0 n.outputs)

end Rule

end TensorLowering
