import TensorLowering.NameMap
import TensorLowering.Profile
import TensorLowering.Program.Basic
import TensorLowering.Tensor.Elementwise
import TensorLowering.Tensor.Layout
import TensorLowering.Tensor.Product
import TensorLowering.Tensor.Reduction

/-! # Running programs

The steps of a program run in order, each on the values of the slots that it reads. A run ends at the
first step that fails; a profile then knows of the steps before it. The error function that the
steps use is an argument of the run. -/

namespace TensorLowering

/-- True when a tensor has the element type and the known sizes of a type. -/
def Tensor.matchesType (t : Tensor) (type : TensorType) : Bool :=
  t.sizes.length == type.shape.rank &&
    (type.shape.extents.zip t.sizes).all (fun (extent, size) => extent.size?.all (· == size)) &&
    t.element == type.element

namespace Step

/-- The value of an input, which must match its type. -/
def bindInput (s : Step) (type : TensorType) (inputs : NameMap Tensor) : Outcome EngineError Tensor :=
  match inputs.get? s.originName with
  | none => failExecution (.missingInput s.originName)
  | some t =>
    if t.matchesType type then .ok t
    else failExecution (.inputMismatch s.originName type t.element t.sizes)

/-- One of the arguments of a step. -/
def argument (s : Step) (args : List Tensor) (index : Nat) : Outcome EngineError Tensor :=
  .ofOptionOr (.execution (.missingArgument s.id index args.length)) args[index]?

/-- The sizes that a tensor holds. -/
def sizesFrom (s : Step) (t : Tensor) : Outcome EngineError (List Nat) :=
  match t.integers? with
  | none => failExecution (.shapeNotInteger s.id)
  | some values =>
    values.mapM fun value =>
      if value < 0 then failExecution (.negativeExtent s.id value.toInt) else .ok value.toInt.toNat

/-- Computes a step from its arguments. -/
def compute (s : Step) (erf : ErrorFunction) (args : List Tensor) : Outcome EngineError Tensor :=
  match s.payload with
  | .reorder element => do (← s.argument args 0).convert element
  | .eltwise mode _ => do Tensor.eltwise mode (← s.argument args 0) (← s.argument args 1)
  | .activation .erf => do (← s.argument args 0).erf erf
  | .gemm spec => do Tensor.gemm (← s.argument args 0) (← s.argument args 1) spec
  | .permute order => do (← s.argument args 0).permute order
  | .reshape (some sizes) => do (← s.argument args 0).reshape sizes
  | .reshape none => do
    let sizes ← s.sizesFrom (← s.argument args 1)
    (← s.argument args 0).reshape sizes
  | .reduce mode axes keepDims => do (← s.argument args 0).reduce mode axes keepDims
  | .crop axis offset length => do (← s.argument args 0).crop axis offset length
  | .concatenation axis => Tensor.concat args axis
  | .fullyConnected compressed hasZeroPoint _ => do
    let scale ← if compressed then some <$> s.argument args 2 else pure none
    let zeroPoint ← if hasZeroPoint then some <$> s.argument args 3 else pure none
    Tensor.fullyConnected (← s.argument args 0) (← s.argument args 1) scale zeroPoint
  | .inputLayout _ | .data _ | .customKernel _ =>
    failExecution (.notComputable s.id s.payload.typeName)

/-- The value of a step, given the values of the steps before it. -/
def value (s : Step) (erf : ErrorFunction) (inputs : NameMap Tensor) (values : List Tensor) :
    Outcome EngineError Tensor :=
  match s.payload, s.constant with
  | .inputLayout type, _ => s.bindInput type inputs
  | _, some constant => .ok constant
  | _, none => do
    let args ← s.inputs.mapM fun slot => .ofOptionOr (.execution (.emptySlot s.id)) values[slot]?
    s.compute erf args

/-- What a step that ran is in a profile: reshapes only pass their input on. -/
def profileStatus (s : Step) : ProfileStatus := if s.payload.isReshape then .optimizedOut else .executed

end Step

namespace Program

/-- Runs steps behind the given values, up to the first that fails. -/
def runSteps (erf : ErrorFunction) (inputs : NameMap Tensor) :
    List Step → List Tensor → List Tensor × Outcome EngineError Unit
  | [], values => (values, .ok ())
  | s :: rest, values =>
    match s.value erf inputs values with
    | .ok value => runSteps erf inputs rest (values ++ [value])
    | .error fault => (values, .error fault)

/-- Takes the outputs out of the slots; a slot is empty afterwards. Of two outputs with one name the
later counts. -/
def takeOutputs (p : Program) :
    List Nat → List (Option Tensor) → NameMap Tensor → Outcome EngineError (NameMap Tensor)
  | [], _, results => .ok results
  | slot :: rest, values, results => do
    let s ← .ofOption p.steps[slot]?
    match values[slot]?.join with
    | some value => p.takeOutputs rest (values.set slot none) (results.insert s.outputName value)
    | none => failExecution (.producedNothing s.id)

/-- The outputs of a run. -/
def finish (p : Program) : List Tensor × Outcome EngineError Unit → Outcome EngineError (NameMap Tensor)
  | (values, .ok ()) => p.takeOutputs p.outputs (values.map some) .empty
  | (_, .error fault) => .error fault

/-- Runs the program on inputs by name. -/
def execute (p : Program) (erf : ErrorFunction) (inputs : NameMap Tensor) :
    Outcome EngineError (NameMap Tensor) :=
  p.finish (runSteps erf inputs p.steps [])

/-- Runs the program and stores in a profile what became of its steps. How long the step in a slot
took, in microseconds, is told by `elapsed`. -/
def executeProfiled (p : Program) (erf : ErrorFunction) (inputs : NameMap Tensor)
    (elapsed : Nat → Nat) (profile : Profile) : Profile × Outcome EngineError (NameMap Tensor) :=
  let run := runSteps erf inputs p.steps []
  let ran := (p.steps.take run.1.length).zipIdx
  (ran.foldl (fun profile (s, slot) => profile.update s.id s.profileStatus (elapsed slot) 0) profile,
    p.finish run)

end Program

end TensorLowering
