import TensorLowering.Lowering.Build

/-! # Rules that emit one primitive

What the rules ask of a node before they emit its primitives, and the rules of parameters, constants
and results, of elementwise operations and of reductions. -/

namespace TensorLowering

namespace Node

/-- The type of an input, which has to be there. -/
def inputType (n : Node) (input : Nat) : Outcome LoweringError TensorType := .ofOption n.inputTypes[input]?

/-- The type of an output, which has to be there. -/
def outputType (n : Node) (output : Nat) : Outcome LoweringError TensorType := .ofOption n.outputs[output]?

/-- The name of the kind of the node. -/
def kindName (n : Node) : Outcome LoweringError String := do pure (← .ofOption n.kind?).name

/-- The position of an axis. -/
def axisPosition (n : Node) (axis : Int64) (rank : Nat) : Outcome LoweringError Nat :=
  match axisPosition? axis.toInt rank with
  | some position => pure position
  | none => n.failParameter (.axisOutOfRange axis.toInt rank)

/-- The sizes of a shape, which must have no symbolic extents. -/
def staticSizes (n : Node) (shape : Shape) (what : String) : Outcome LoweringError (List Nat) :=
  match shape.sizes? with
  | some sizes => pure sizes
  | none => n.failParameter (.notStatic what shape)

end Node

/-- The integers in a constant input. -/
def BuildContext.integerInput (ctx : BuildContext) (n : Node) (input : Nat) (fault : ParameterFault) :
    Outcome LoweringError (List Int64) := do
  match (← ctx.constantInput n input).integers? with
  | some values => pure values
  | none => n.failParameter fault

namespace Rule

/-- A parameter becomes an input. -/
def parameter : Rule := .ofEmission fun _ _ n => do
  n.checkArity [0]
  pure [.ok (.new (← n.identity) (.inputLayout (← n.outputType 0)) [])]

/-- A constant becomes a data primitive. -/
def constant : Rule := .ofEmission fun _ _ n => do
  n.checkArity [0]
  match n.value with
  | some literal => pure [.ok (.new (← n.identity) (.data literal) [])]
  | none => n.failParameter .constantWithoutValue

/-- A result becomes a conversion to its element type. -/
def result : Rule := .ofEmission fun ctx ids n => do
  n.checkArity [1]
  let inputs ← ctx.inputs ids n
  pure [.ok (.new (← n.identity) (.reorder (← n.outputType 0).element) inputs)]

/-- A binary operation becomes an elementwise primitive. -/
def eltwise : Rule := .ofEmission fun ctx ids n => do
  n.checkArity [2]
  let some mode := EltwiseMode.ofName? (← n.kindName)
    | n.failUnsupported
  let inputs ← ctx.inputs ids n
  pure [.ok (.new (← n.identity) (.eltwise mode (← n.outputType 0).element) inputs)]

/-- The error function becomes an activation. -/
def erf : Rule := .ofEmission fun ctx ids n => do
  n.checkArity [1]
  let inputs ← ctx.inputs ids n
  pure [.ok (.new (← n.identity) (.activation .erf) inputs)]

/-- A reduction becomes one primitive; its axes are a constant input. All reductions reach this rule
through their generic kind. -/
def reduction : Rule := .ofEmission fun ctx ids n => do
  n.checkArity [2]
  let some mode := ReduceMode.ofName? (← n.kindName)
    | n.failUnsupported
  let inputs ← ctx.inputs ids n
  let rank := (← n.inputType 0).shape.rank
  let values ← ctx.integerInput n 1 .axesNotInteger
  let axes ← values.mapM fun axis => n.axisPosition axis rank
  pure [.ok (.new (← n.identity) (.reduce mode (axisSet axes) (n.switch "keep_dims" false)) (inputs.take 1))]

end Rule

end TensorLowering
