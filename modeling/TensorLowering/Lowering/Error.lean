import TensorLowering.Engine.Error
import TensorLowering.Graph.Basic
import TensorLowering.Overlay.Table

/-! # Errors of the lowering -/

namespace TensorLowering

open Text

/-- How messages refer to a node. -/
structure NodeLabel where
  name : String
  kind : OpKind
  deriving DecidableEq, Repr

/-- What is wrong with the parameters of a node. -/
inductive ParameterFault where
  | constantWithoutValue
  | inputNotConstant (input : Nat) (type : String)
  | inputWithoutValue (input : Nat)
  | axisOutOfRange (axis : Int) (rank : Nat)
  | notStatic (what : String) (shape : Shape)
  | axesNotInteger
  | permutationNotInteger
  | permutationRank (order : List Nat) (rank : Nat)
  | permutationRepeats (order : List Nat) (axis : Nat)
  | missingAxis
  | splitAxisNotInteger
  | notFromConstants (what : String)
  | unboundInput (index available : Nat)
  | unboundOutput (index available : Nat)
  | defineWithoutValue (name : String)
  | other (reason : String)
  deriving DecidableEq, Repr

/-- The text of the fault. -/
def ParameterFault.message : ParameterFault → String
  | constantWithoutValue => "constant carries no value"
  | inputNotConstant input type => s!"input {input} must be a constant, got {type}"
  | inputWithoutValue input => s!"constant input {input} carries no value"
  | axisOutOfRange axis rank => s!"axis {axis} is out of range for rank {rank}"
  | notStatic what shape => s!"{what} shape {shape.text} must be static"
  | axesNotInteger => "reduction axes must be integers"
  | permutationNotInteger => "permutation must be integers"
  | permutationRank order rank => s!"permutation {listing order} does not match rank {rank}"
  | permutationRepeats order axis => s!"permutation {listing order} repeats axis {axis}"
  | missingAxis => "missing axis attribute"
  | splitAxisNotInteger => "split axis must be an integer scalar"
  | notFromConstants what => s!"{what} must be computable from constants"
  | unboundInput index available => s!"kernel binds input port {index} but the node has {available}"
  | unboundOutput index available => s!"kernel binds output port {index} but the node has {available}"
  | defineWithoutValue name => s!"no value for kernel define {name}"
  | other reason => reason

/-- Why lowering or compiling fails. -/
inductive LoweringError where
  | invalidArity (node : NodeLabel) (actual : Nat) (accepted : List Nat)
  | unresolvedInput (node identity : String)
  | unsupported (node : NodeLabel)
  | invalidParameter (node : NodeLabel) (fault : ParameterFault)
  | buildFailed (cause : EngineError)
  | topology (cause : TopologyError)
  | duplicateRule (kind : OpKind)
  | overlay (cause : OverlayError)
  deriving DecidableEq, Repr

/-- The text of the error. -/
def LoweringError.message : LoweringError → String
  | invalidArity node actual accepted =>
    s!"invalid inputs count ({actual}) in {node.name} ({node.kind.name} {node.kind.version}); " ++
      s!"accepted counts: {listing accepted}"
  | unresolvedInput node identity => s!"input {identity} of {node} hasn't been found in primitive_ids map"
  | unsupported node => s!"operation: {node.name} of type {node.kind.name}({node.kind.version}) is not supported"
  | invalidParameter node fault => s!"invalid parameters for {node.name} ({node.kind.name}): {fault.message}"
  | buildFailed cause => s!"program build failed: {cause.message}"
  | topology cause => s!"topology error: {cause.message}"
  | duplicateRule kind => s!"a builder for {kind.text} is already registered"
  | overlay cause => cause.message

namespace Node

/-- How messages refer to the node. -/
def label (n : Node) : Outcome LoweringError NodeLabel := do
  pure ⟨n.name, ← .ofOption n.kind?⟩

/-- Ends because the parameters of the node are wrong. -/
def failParameter {α : Type} (n : Node) (fault : ParameterFault) : Outcome LoweringError α := do
  .fail (.invalidParameter (← n.label) fault)

/-- Ends because nothing lowers the node. -/
def failUnsupported {α : Type} (n : Node) : Outcome LoweringError α := do
  .fail (.unsupported (← n.label))

/-- Checks the number of inputs. -/
def checkArity (n : Node) (accepted : List Nat) : Outcome LoweringError Unit := do
  if accepted.contains n.inputs.length then pure ()
  else .fail (.invalidArity (← n.label) n.inputs.length accepted)

end Node

end TensorLowering
