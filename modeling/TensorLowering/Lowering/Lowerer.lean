import TensorLowering.Lowering.Registry

/-! # Lowering graphs

A lowerer turns the nodes of a graph, one after the other, into primitives. A node whose kind an
overlay covers becomes its kernel; any other node follows the rule of the first level of its type
that has one. A support query lowers a single node into an empty build, with identities in place of
primitives. -/

namespace TensorLowering

/-- What a caller asks of a build. -/
structure BuildOptions where
  /-- Stop after lowering. -/
  topologyOnly : Bool := false
  partialBuild : Bool := false
  /-- Inner programs also follow the inference regime of the configuration. -/
  innerProgram : Bool := false
  deriving DecidableEq, Repr, Inhabited

/-- What lowering a graph gives. -/
structure Lowered where
  topology : Topology
  ids : IdentityMap
  profile : Profile
  newShapeInference : Bool
  deriving DecidableEq

/-- What decides how nodes are lowered. -/
structure Lowerer where
  device : Device
  config : BuildConfig
  registry : Registry
  overlay : Overlay

/-- The overlay that a configuration names: its global document first, which may replace anything,
and then its own. -/
def Overlay.ofConfig (files : Files) (c : BuildConfig) : Except OverlayError Overlay := do
  let load (o : Overlay) (path : Option String) (replace : Bool) : Except OverlayError Overlay :=
    match path with
    | none => .ok o
    | some path =>
      match o.loadFile files path replace with
      | (next, .ok _) => .ok next
      | (_, .error e) => .error e
  let base ← load .empty c.globalOverlay true
  load base c.overlay c.overlayReplaces

namespace Lowerer

/-- The first level of a type that has a rule, with the rule. -/
def findRule? (l : Lowerer) (type : OpType) : Option (OpKind × Rule) :=
  type.levels.findSome? fun kind => (l.registry.rule? kind).map (kind, ·)

/-- Lowers one node. -/
def lowerNode (l : Lowerer) (ctx : BuildContext) (n : Node) : Build Unit := do
  match l.overlay.get? (← n.kindName) with
  | some k => Rule.kernel k ctx n
  | none =>
    match l.findRule? n.type with
    | some (_, rule) => rule ctx n
    | none => n.failUnsupported

/-- The inference regime of a graph: the new one if some node needs it, or if an inner program is
asked to use it. -/
def regime (l : Lowerer) (g : Graph) (options : BuildOptions) : Bool :=
  g.nodes.any Node.needsNewShapeInference || options.innerProgram && l.config.newShapeInference

/-- The context in which a graph is lowered. -/
def context (l : Lowerer) (g : Graph) (options : BuildOptions) : BuildContext :=
  ⟨g, l.config, l.device, l.regime g options, false⟩

/-- The context in which the support of a node is asked for. -/
def queryContext (l : Lowerer) (g : Graph) (n : Node) : BuildContext :=
  ⟨g, l.config, l.device, n.needsNewShapeInference, true⟩

/-- Lowers the nodes of a graph in order. Afterwards every input must name a primitive. -/
def lower (l : Lowerer) (g : Graph) (options : BuildOptions) : Outcome LoweringError Lowered :=
  let ctx := l.context g options
  match StateT.run (ExceptT.run (g.nodes.forM (l.lowerNode ctx))) BuildState.empty with
  | (.error fault, _) => .error fault
  | (.ok (), s) =>
    match s.topology.validate with
    | .error e => .fail (.topology e)
    | .ok () => .ok ⟨s.topology, s.ids, s.profile, ctx.newShapeInference⟩

/-- Lowers the node at a position on its own; what it becomes is dropped. -/
def probe (l : Lowerer) (g : Graph) (position : Nat) : Outcome LoweringError Unit := do
  let n ← .ofOption (g.node? position)
  (StateT.run (ExceptT.run (l.lowerNode (l.queryContext g n) n)) BuildState.empty).1

/-- True when the node at a position can be lowered on its own. -/
def isSupported (l : Lowerer) (g : Graph) (position : Nat) : Outcome LoweringError Bool :=
  match l.probe g position with
  | .ok () => .ok true
  | .error (.error _) => .ok false
  | .error .abort => .error .abort

/-- The support of all nodes by name; of two nodes with one name the later counts. -/
def support (l : Lowerer) (g : Graph) : Outcome LoweringError (NameMap Bool) :=
  g.nodes.foldlM (fun verdicts n => do pure (verdicts.insert n.name (← l.isSupported g n.id))) .empty

end Lowerer

/-- A program with what is known from lowering its graph. -/
structure Built (ρ : Type) where
  program : ρ
  ids : IdentityMap
  profile : Profile
  newShapeInference : Bool

namespace Lowered

/-- The configuration that an engine gets for a lowered graph. -/
def engineConfig (lowered : Lowered) (c : BuildConfig) (options : BuildOptions) : BuildConfig :=
  { c with
    partialBuild := options.partialBuild
    optimizeData := true
    newShapeInference := lowered.newShapeInference }

/-- Has an engine build the program of a lowered graph. -/
def compile {σ ρ : Type} (lowered : Lowered) (engine : Engine σ ρ) (c : BuildConfig)
    (options : BuildOptions) (memory : σ) : Outcome LoweringError (Built ρ) × σ :=
  let (result, memory) := engine.build lowered.topology (lowered.engineConfig c options) memory
  (match result with
    | .ok program => .ok ⟨program, lowered.ids, lowered.profile, lowered.newShapeInference⟩
    | .error (.error e) => .fail (.buildFailed e)
    | .error .abort => .abort, memory)

end Lowered

end TensorLowering
