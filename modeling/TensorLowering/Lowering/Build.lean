import TensorLowering.Engine.Basic
import TensorLowering.Lowering.Identity
import TensorLowering.Profile

/-! # Builds

A build collects primitives while the nodes of a graph are lowered. Rules read the context of the
build and add primitives to its state; a primitive that is refused leaves the topology as it was. -/

namespace TensorLowering

/-- What stays the same during a build. -/
structure BuildContext where
  graph : Graph
  config : BuildConfig
  device : Device
  newShapeInference : Bool
  /-- True when it is only asked whether a node can be lowered. -/
  query : Bool

/-- What a build has collected. -/
structure BuildState where
  topology : Topology
  ids : IdentityMap
  profile : Profile
  deriving DecidableEq

namespace BuildState

/-- The state at the start of a build. -/
def empty : BuildState := ⟨.empty, .empty, .empty⟩

instance : Inhabited BuildState := ⟨empty⟩

/-- Adds a primitive of a node with the given identity. The primitive becomes the value of the
identity and of the aliases; under an identifier that is not the identity it is also known as such,
and its origin type is then the type of the primitive, except for the first output of a split. -/
def add (s : BuildState) (profiling : Bool) (node : NodeLabel) (identity : String) (p : Primitive)
    (aliases : List String) : BuildState × Except TopologyError Unit :=
  let renamed := identity ≠ p.id
  let originType :=
    if renamed ∧ p.id ≠ identity ++ outputSuffix 0 then p.payload.typeName else node.kind.name
  let p := { p with originName := node.name, originType := originType }
  let ids := s.ids.insert identity p.id
  let ids := if renamed then ids.insert p.id p.id else ids
  let ids := aliases.foldl (fun ids other => ids.insert other p.id) ids
  let profile :=
    if profiling && !p.payload.isData then s.profile.record p.id p.originType p.originName else s.profile
  match s.topology.add p with
  | .ok topology => (⟨topology, ids, profile⟩, .ok ())
  | .error e => (⟨s.topology, ids, profile⟩, .error e)

end BuildState

/-- A part of a build: it may fail, and its changes to the state remain when it does. -/
abbrev Build := ExceptT (Fault LoweringError) (StateM BuildState)

namespace BuildContext

/-- The primitives that a node reads. -/
def inputs (ctx : BuildContext) (ids : IdentityMap) (n : Node) : Outcome LoweringError (List Source) :=
  n.resolveInputs ctx.graph ids ctx.newShapeInference ctx.query

/-- The constant that an input of a node reads. -/
def constantInput (ctx : BuildContext) (n : Node) (input : Nat) : Outcome LoweringError Literal := do
  if n.inputs.length ≤ input then
    .fail (.invalidArity (← n.label) n.inputs.length [input + 1])
  let producer ← .ofOption (ctx.graph.producer? n input)
  if !producer.isA Opset.constant then
    let kind ← .ofOption producer.kind?
    n.failParameter (.inputNotConstant input kind.name)
  match producer.value with
  | some literal => pure literal
  | none => n.failParameter (.inputWithoutValue input)

/-- Adds a primitive of a node. -/
def add (ctx : BuildContext) (n : Node) (p : Primitive) (aliases : List String) : Build Unit := do
  let label ← n.label
  let identity ← n.identity
  let (next, result) := (← get).add ctx.config.profiling label identity p aliases
  set next
  match result with
  | .ok () => pure ()
  | .error e => throw (.error (.topology e))

end BuildContext

/-- How nodes of a kind are lowered. -/
abbrev Rule := BuildContext → Node → Build Unit

/-- What a rule emits: primitives to add in order. A fault among them ends the rule there. -/
abbrev Emission := List (Outcome LoweringError Primitive)

/-- A rule that looks at the identities once and then adds what it emits. -/
def Rule.ofEmission (emit : BuildContext → IdentityMap → Node → Outcome LoweringError Emission) : Rule :=
  fun ctx n => do
    let steps ← emit ctx (← get).ids n
    steps.forM fun step => do ctx.add n (← step) []

end TensorLowering
