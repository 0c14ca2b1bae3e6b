import TensorLowering.Tensor.Basic
import TensorLowering.Topology.Encoding
import TensorLowering.Topology.Schedule

/-! # Programs

A program is a topology in dependency order. Every step stands in a slot and reads the slots of
earlier steps. Constants are turned into tensors once, when the program is compiled. Its outputs are
the results, and all other steps, except constants, that nothing reads. -/

namespace TensorLowering

/-- A primitive with its inputs as slots. -/
structure Step where
  id : String
  originName : String
  originType : String
  payload : Payload
  inputs : List Nat
  constant : Option Tensor
  deriving DecidableEq

namespace Step

/-- True for the steps that hand out a result of the graph. -/
def isResult (s : Step) : Bool := s.originType == "Result"

/-- The name of the step among the outputs: a result has the name of its node. -/
def outputName (s : Step) : String := if s.isResult then s.originName else s.id

/-- The slot of an input among the steps before. -/
def slotOf (steps : List Step) (id : String) (s : Source) : Outcome EngineError Nat :=
  if s.output ≠ 0 then failExecution (.secondOutput id s.output s.id)
  else
    match steps.findIdx? (·.id == s.id) with
    | some slot => .ok slot
    | none => failExecution (.scheduledBefore id s.id)

/-- The tensor of a constant. Kernels cannot be compiled. -/
def constantOf (p : Primitive) : Outcome EngineError (Option Tensor) :=
  match p.payload with
  | .customKernel spec => failUnimplemented (.customKernel p.id spec.entryPoint)
  | .data literal => do pure (some (← Tensor.ofLiteral literal))
  | _ => .ok none

/-- The step of a primitive behind the given steps. -/
def ofPrimitive (steps : List Step) (p : Primitive) : Outcome EngineError Step := do
  let constant ← constantOf p
  let inputs ← p.inputs.mapM (slotOf steps p.id)
  pure ⟨p.id, p.originName, p.originType, p.payload, inputs, constant⟩

end Step

/-- Steps in dependency order, with the slots of the outputs. -/
structure Program where
  fingerprint : UInt64
  steps : List Step
  outputs : List Nat
  deriving DecidableEq

namespace Program

/-- The steps of primitives in dependency order. -/
def stepsOf (order : List Primitive) : Outcome EngineError (List Step) :=
  order.foldlM (fun steps p => do pure (steps ++ [← Step.ofPrimitive steps p])) []

/-- The slots of the outputs. -/
def outputsOf (steps : List Step) : List Nat :=
  (List.range steps.length).filter fun slot =>
    match steps[slot]? with
    | some s => s.isResult || !(steps.any fun user => user.inputs.contains slot) && !s.payload.isData
    | none => false

/-- Compiles a topology. -/
def compile (t : Topology) : Outcome EngineError Program := do
  let order ← t.schedule.mapError fun e => .execution (.topology e)
  let steps ← stepsOf order
  pure ⟨t.fingerprint, steps, outputsOf steps⟩

/-- The names of the inputs, in the order of the steps. -/
def inputNames (p : Program) : List String := (p.steps.filter (·.payload.isInput)).map Step.originName

/-- The names of the outputs, in the order of the steps. -/
def outputNames (p : Program) : List String :=
  p.outputs.filterMap fun slot => p.steps[slot]?.map Step.outputName

end Program

end TensorLowering
