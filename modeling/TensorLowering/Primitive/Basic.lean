import TensorLowering.Spec.Literal

/-! # Primitives

A primitive is a unit of work of the target: an identifier, a payload that says what it computes,
and the outputs of other primitives that it reads. It remembers the name and the type of the graph
node that it came from, for profiles and for the names of program outputs. Which elementwise
operation or reduction a node stands for is decided by the name of its kind alone. -/

namespace TensorLowering

open Numeric

/-- What an elementwise primitive computes from two elements. -/
inductive EltwiseMode where
  | sum
  | sub
  | prod
  | div
  | squaredDiff
  | pow
  | floorMod
  | mod
  | max
  | min
  deriving DecidableEq, Repr

/-- The elementwise operation that a kind of this name stands for. -/
def EltwiseMode.ofName? : String → Option EltwiseMode
  | "Add" => some .sum
  | "Subtract" => some .sub
  | "Multiply" => some .prod
  | "Divide" => some .div
  | "SquaredDifference" => some .squaredDiff
  | "Power" => some .pow
  | "FloorMod" => some .floorMod
  | "Mod" => some .mod
  | "Maximum" => some .max
  | "Minimum" => some .min
  | _ => none

/-- What an activation primitive computes from one element. -/
inductive ActivationFunction where
  | erf
  deriving DecidableEq, Repr

/-- What a reduction folds its elements with. -/
inductive ReduceMode where
  | sum
  | mean
  | max
  | min
  | prod
  | l1
  | l2
  deriving DecidableEq, Repr

/-- The reduction that a kind of this name stands for. -/
def ReduceMode.ofName? : String → Option ReduceMode
  | "ReduceSum" => some .sum
  | "ReduceMean" => some .mean
  | "ReduceMax" => some .max
  | "ReduceMin" => some .min
  | "ReduceProd" => some .prod
  | "ReduceL1" => some .l1
  | "ReduceL2" => some .l2
  | _ => none

/-- The settings of a matrix product. -/
structure GemmSpec where
  element : ElementType
  transposeA : Bool
  transposeB : Bool
  alpha : Binary32
  beta : Binary32
  inputRank : Nat
  weightRank : Nat
  deriving DecidableEq, Repr

/-- A kernel supplied by the user, ready to be handed to a device. -/
structure KernelSpec where
  entryPoint : String
  source : String
  buildOptions : String
  globalWorkSize : List Nat
  localWorkSize : List Nat
  output : TensorType
  deriving DecidableEq, Repr

/-- What a primitive computes. -/
inductive Payload where
  | inputLayout (type : TensorType)
  | data (literal : Literal)
  | reorder (element : ElementType)
  | eltwise (mode : EltwiseMode) (element : ElementType)
  | activation (function : ActivationFunction)
  | gemm (spec : GemmSpec)
  | permute (order : List Nat)
  /-- Without sizes, the second input holds them at run time. -/
  | reshape (sizes : Option (List Nat))
  | reduce (mode : ReduceMode) (axes : List Nat) (keepDims : Bool)
  | crop (axis offset length : Nat)
  | concatenation (axis : Nat)
  | fullyConnected (compressed hasZeroPoint : Bool) (element : ElementType)
  | customKernel (spec : KernelSpec)
  deriving DecidableEq, Repr

namespace Payload

/-- The name of the kind of work, in profiles and messages. -/
def typeName : Payload → String
  | inputLayout _ => "input_layout"
  | data _ => "data"
  | reorder _ => "reorder"
  | eltwise .. => "eltwise"
  | activation _ => "activation"
  | gemm _ => "gemm"
  | permute _ => "permute"
  | reshape _ => "reshape"
  | reduce .. => "reduce"
  | crop .. => "crop"
  | concatenation _ => "concatenation"
  | fullyConnected .. => "fully_connected"
  | customKernel _ => "custom_gpu_primitive"

/-- True for the primitives that only hold a constant. -/
def isData : Payload → Bool
  | data _ => true
  | _ => false

/-- True for the primitives that stand for a parameter of the program. -/
def isInput : Payload → Bool
  | inputLayout _ => true
  | _ => false

/-- True for the primitives that only give their input another shape. -/
def isReshape : Payload → Bool
  | reshape _ => true
  | _ => false

end Payload

/-- An output of a primitive. -/
structure Source where
  id : String
  output : Nat
  deriving DecidableEq, Repr

/-- A unit of work of the target. -/
structure Primitive where
  id : String
  payload : Payload
  inputs : List Source
  originName : String
  originType : String
  deriving DecidableEq, Repr

namespace Primitive

/-- A primitive whose origin is not known yet. -/
def new (id : String) (payload : Payload) (inputs : List Source) : Primitive :=
  ⟨id, payload, inputs, "", ""⟩

end Primitive

end TensorLowering
