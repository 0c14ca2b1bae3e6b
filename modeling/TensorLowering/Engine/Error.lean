import TensorLowering.Fault
import TensorLowering.Spec.Literal
import TensorLowering.Topology.Basic

/-! # Errors of engines

The causes for which compiling, running or evaluating fails, and their texts. Lists of numbers inside
the texts are written in square brackets. An engine of its own can report a cause in its own
words. -/

namespace TensorLowering

/-- The entries in square brackets, separated by a comma and a space. -/
def Text.listing (entries : List Nat) : String :=
  "[" ++ String.intercalate ", " (entries.map toString) ++ "]"

open Text

/-- What an engine does not offer. -/
inductive Unimplemented where
  /-- A matrix product of tensors without axes. -/
  | scalarProduct
  /-- A constant with these elements. -/
  | constantElement (element : ElementType)
  /-- A conversion to these elements. -/
  | conversion (element : ElementType)
  /-- A kernel supplied by the user. -/
  | customKernel (id entryPoint : String)
  | other (primitive message : String)
  deriving DecidableEq, Repr

namespace Unimplemented

/-- The kind of primitive that is not offered. -/
def primitive : Unimplemented → String
  | scalarProduct => "gemm"
  | constantElement _ => "data"
  | conversion _ => "reorder"
  | customKernel .. => "custom_gpu_primitive"
  | other primitive _ => primitive

/-- What about it is not offered. -/
def message : Unimplemented → String
  | scalarProduct => "scalar operands"
  | constantElement element => s!"dtype {element.name} not supported by the reference engine"
  | conversion element => s!"conversion to {element.name} not supported"
  | customKernel id entryPoint => s!"{id} ({entryPoint}) needs a device kernel compiler"
  | other _ message => message

end Unimplemented

/-- Why a graph node cannot be evaluated. -/
inductive EvaluationError where
  | axisOutOfRange (axis : Int) (rank : Nat)
  | notInteger
  | outputNotStatic
  | outOfOrder
  | missingInput (index : Nat)
  | noValueSupplied
  | constantWithoutPayload
  | emptySplitAxis
  | missingAxis
  deriving DecidableEq, Repr

/-- The text of the reason. -/
def EvaluationError.message : EvaluationError → String
  | axisOutOfRange axis rank => s!"axis {axis} out of range for rank {rank}"
  | notInteger => "expected an integer tensor"
  | outputNotStatic => "output shape must be static"
  | outOfOrder => "input evaluated out of order"
  | missingInput index => s!"missing input {index}"
  | noValueSupplied => "no value supplied"
  | constantWithoutPayload => "constant without payload"
  | emptySplitAxis => "empty split axis"
  | missingAxis => "missing axis attribute"

/-- Why something offered fails all the same. -/
inductive ExecutionError where
  | elementCount (sizes : List Nat) (actual : Nat)
  | notFloat (found : ElementType)
  | literalNotStatic (shape : Shape)
  | noBroadcast (lhs rhs : List Nat)
  | noBroadcastTo (sizes target : List Nat)
  | contractionMismatch (lhs rhs : List Nat)
  | permutationRank (order : List Nat) (rank : Nat)
  | reshapeCount (sizes target : List Nat)
  | reduceAxis (axis rank : Nat)
  | cropRange (offset length axis : Nat) (sizes : List Nat)
  | concatenateNothing
  | concatenateAxis (axis rank : Nat)
  | concatenateShapes (sizes first : List Nat) (axis : Nat)
  | concatenateElements
  | fullyConnectedScalar
  | fullyConnectedWeights (weights input : List Nat)
  | topology (cause : TopologyError)
  | secondOutput (id : String) (output : Nat) (producer : String)
  | scheduledBefore (id producer : String)
  | emptySlot (id : String)
  | producedNothing (id : String)
  | missingInput (name : String)
  | inputMismatch (name : String) (expected : TensorType) (found : ElementType) (sizes : List Nat)
  | missingArgument (id : String) (index found : Nat)
  | shapeNotInteger (id : String)
  | negativeExtent (id : String) (extent : Int)
  | notComputable (id type : String)
  | evaluation (name type : String) (cause : EvaluationError)
  | noReference (type : String)
  | other (message : String)
  deriving DecidableEq, Repr

/-- The text of the cause. -/
def ExecutionError.message : ExecutionError → String
  | elementCount sizes actual => s!"tensor dims {listing sizes} need {wordVolume sizes} elements, got {actual}"
  | notFloat found => s!"expected f32 tensor, got {found.name}"
  | literalNotStatic shape => s!"literal shape {shape.text} must be static"
  | noBroadcast lhs rhs => s!"shapes {listing lhs} and {listing rhs} do not broadcast"
  | noBroadcastTo sizes target => s!"cannot broadcast {listing sizes} to {listing target}"
  | contractionMismatch lhs rhs => s!"gemm contraction mismatch: {listing lhs} x {listing rhs}"
  | permutationRank order rank => s!"permutation {listing order} does not match rank {rank}"
  | reshapeCount sizes target => s!"cannot reshape {listing sizes} into {listing target}"
  | reduceAxis axis rank => s!"reduce axis {axis} out of range for rank {rank}"
  | cropRange offset length axis sizes =>
    s!"crop [{offset}, {wrap (offset + length)}) on axis {axis} exceeds {listing sizes}"
  | concatenateNothing => "concatenation needs at least one input"
  | concatenateAxis axis rank => s!"concatenation axis {axis} out of range for rank {rank}"
  | concatenateShapes sizes first axis =>
    s!"cannot concatenate {listing sizes} with {listing first} on axis {axis}"
  | concatenateElements => "concatenation inputs differ in dtype"
  | fullyConnectedScalar => "fully connected input must have rank >= 1"
  | fullyConnectedWeights weights input =>
    s!"weights {listing weights} do not match input {listing input}"
  | topology cause => cause.message
  | secondOutput id output producer =>
    s!"{id} reads output {output} of {producer}; reference primitives have a single output"
  | scheduledBefore id producer => s!"{id} scheduled before {producer}"
  | emptySlot id => s!"{id} read an empty slot"
  | producedNothing id => s!"{id} produced nothing"
  | missingInput name => s!"missing input '{name}'"
  | inputMismatch name expected found sizes =>
    s!"input '{name}' expects {expected.text}, got {found.name} {listing sizes}"
  | missingArgument id index found => s!"{id} expects at least {index + 1} inputs, got {found}"
  | shapeNotInteger id => s!"{id} shape input must be integer"
  | negativeExtent id extent => s!"{id} target shape has negative extent {extent}"
  | notComputable id type => s!"{id} ({type}) cannot run as a compute step"
  | evaluation name type cause => s!"{name} ({type}): {cause.message}"
  | noReference type => s!"reference evaluation of {type} is not available"
  | other message => message

/-- Why an engine fails. -/
inductive EngineError where
  | unimplemented (cause : Unimplemented)
  | execution (cause : ExecutionError)
  deriving DecidableEq, Repr

/-- The text of the error. -/
def EngineError.message : EngineError → String
  | unimplemented cause => s!"primitive '{cause.primitive}' is not implemented: {cause.message}"
  | execution cause => s!"execution error: {cause.message}"

/-- Ends with an execution error. -/
def failExecution {α : Type} (cause : ExecutionError) : Outcome EngineError α :=
  .fail (.execution cause)

/-- Ends because something is not offered. -/
def failUnimplemented {α : Type} (cause : Unimplemented) : Outcome EngineError α :=
  .fail (.unimplemented cause)

end TensorLowering
