import TensorLowering.Graph.Opset
import TensorLowering.Lowering.Error
import TensorLowering.NameMap
import TensorLowering.Primitive.Basic
import TensorLowering.Text.Characters

/-! # Identities

A node is known under its identity: the name of its kind in lowercase, a colon, and its own name. The
identity map leads from identities, and from the aliases that rules declare, to the primitive that
produces the value, so that a consumer need not know how its producer was lowered. -/

namespace TensorLowering

/-- Primitives by identity. -/
abbrev IdentityMap := NameMap String

/-- What stands behind an identity for one of several outputs. -/
def outputSuffix (output : Nat) : String := ".out" ++ toString output

namespace Node

/-- The name of the kind in lowercase. -/
def layerType? (n : Node) : Option String := n.kind?.map fun kind => Text.lowercase kind.name

/-- The identity of the node. -/
def identity? (n : Node) : Option String := n.layerType?.map fun type => type ++ ":" ++ n.name

/-- The identity of a node that must have a kind. -/
def identity (n : Node) : Outcome LoweringError String := .ofOption n.identity?

/-- True when each output of the node is known under an identity of its own: it has several, and the
legacy inference is used or the node is a split. -/
def hasOutputIdentities (n : Node) (newShapeInference : Bool) : Bool :=
  1 < n.outputs.length && (!newShapeInference || n.isSplit)

end Node

namespace Edge

/-- The identity that an edge refers to, and the output that it reads from what has that identity. -/
def target (e : Edge) (producer : Node) (newShapeInference : Bool) : Outcome LoweringError Source := do
  let identity ← producer.identity
  pure (if producer.hasOutputIdentities newShapeInference then ⟨identity ++ outputSuffix e.output, 0⟩
    else ⟨identity, e.output⟩)

/-- The primitive that an edge into `consumer` reads. A support query takes the identity for it. -/
def resolve (e : Edge) (g : Graph) (consumer : Node) (ids : IdentityMap) (newShapeInference query : Bool) :
    Outcome LoweringError Source := do
  let target ← e.target (← .ofOption (g.node? e.node)) newShapeInference
  if query then pure target
  else
    match ids.get? target.id with
    | some id => pure ⟨id, target.output⟩
    | none => .fail (.unresolvedInput consumer.name target.id)

end Edge

/-- The primitives that a node reads. -/
def Node.resolveInputs (n : Node) (g : Graph) (ids : IdentityMap) (newShapeInference query : Bool) :
    Outcome LoweringError (List Source) :=
  n.inputs.mapM fun e => e.resolve g n ids newShapeInference query

end TensorLowering
