import TensorLowering.Primitive.Basic
import TensorLowering.Spec.Document

/-! # Primitives in documents

A payload is a variant with a record of its fields. How the two scalars of a matrix product are
written is left to the caller: a document for people has decimals, one that keeps every bit has
words. -/

namespace TensorLowering

open Json Numeric

namespace EltwiseMode

/-- All modes, in the order in which they are numbered. -/
def all : List EltwiseMode := [sum, sub, prod, div, squaredDiff, pow, floorMod, mod, max, min]

/-- The tag of the mode. -/
def tag : EltwiseMode → String
  | sum => "Sum"
  | sub => "Sub"
  | prod => "Prod"
  | div => "Div"
  | squaredDiff => "SquaredDiff"
  | pow => "Pow"
  | floorMod => "FloorMod"
  | mod => "Mod"
  | max => "Max"
  | min => "Min"

/-- The mode with a tag. -/
def ofValue? : Value → Option EltwiseMode := Value.unit? (all.map fun m => (m.tag, m))

end EltwiseMode

namespace ActivationFunction

/-- The tag of the function. -/
def tag : ActivationFunction → String
  | erf => "Erf"

/-- The function with a tag. -/
def ofValue? : Value → Option ActivationFunction := Value.unit? [(erf.tag, erf)]

end ActivationFunction

namespace ReduceMode

/-- All modes, in the order in which they are numbered. -/
def all : List ReduceMode := [sum, mean, max, min, prod, l1, l2]

/-- The tag of the mode. -/
def tag : ReduceMode → String
  | sum => "Sum"
  | mean => "Mean"
  | max => "Max"
  | min => "Min"
  | prod => "Prod"
  | l1 => "L1"
  | l2 => "L2"

/-- The mode with a tag. -/
def ofValue? : Value → Option ReduceMode := Value.unit? (all.map fun m => (m.tag, m))

end ReduceMode

namespace GemmSpec

/-- The names of the fields. -/
def fieldNames : List String :=
  ["output_dtype", "transpose_a", "transpose_b", "alpha", "beta", "input_rank", "weight_rank"]

/-- The record of the settings. -/
def toValue (scalar : Binary32 → Value) (s : GemmSpec) : Value :=
  .object (fieldNames.zip
    [s.element.toValue, .bool s.transposeA, .bool s.transposeB, scalar s.alpha, scalar s.beta,
     .nat s.inputRank, .nat s.weightRank])

/-- Reads the record of the settings. -/
def ofValue? (scalar? : Value → Option Binary32) (v : Value) : Option GemmSpec := do
  let r ← v.record? fieldNames
  pure {
    element := ← r.required 0 ElementType.ofValue?
    transposeA := ← r.required 1 Value.bool?
    transposeB := ← r.required 2 Value.bool?
    alpha := ← r.required 3 scalar?
    beta := ← r.required 4 scalar?
    inputRank := ← r.required 5 Value.nat?
    weightRank := ← r.required 6 Value.nat? }

end GemmSpec

namespace KernelSpec

/-- The names of the fields. -/
def fieldNames : List String :=
  ["entry_point", "source", "build_options", "global_work_size", "local_work_size", "output"]

/-- The record of a kernel. -/
def toValue (k : KernelSpec) : Value :=
  .object (fieldNames.zip
    [.string k.entryPoint, .string k.source, .string k.buildOptions, .nats k.globalWorkSize,
     .nats k.localWorkSize, k.output.toValue])

/-- Reads the record of a kernel. -/
def ofValue? (v : Value) : Option KernelSpec := do
  let r ← v.record? fieldNames
  pure {
    entryPoint := ← r.required 0 Value.string?
    source := ← r.required 1 Value.string?
    buildOptions := ← r.required 2 Value.string?
    globalWorkSize := ← r.required 3 (Value.list? Value.nat?)
    localWorkSize := ← r.required 4 (Value.list? Value.nat?)
    output := ← r.required 5 TensorType.ofValue? }

end KernelSpec

namespace Payload

/-- The variant of a payload. -/
def toValue (scalar : Binary32 → Value) : Payload → Value
  | inputLayout type => .tagged "InputLayout" (.object [("spec", type.toValue)])
  | data literal => .tagged "Data" (.object [("literal", literal.toValue)])
  | reorder element => .tagged "Reorder" (.object [("output_dtype", element.toValue)])
  | eltwise mode element =>
    .tagged "Eltwise" (.object [("mode", .string mode.tag), ("output_dtype", element.toValue)])
  | activation function => .tagged "Activation" (.object [("func", .string function.tag)])
  | gemm spec => .tagged "Gemm" (spec.toValue scalar)
  | permute order => .tagged "Permute" (.object [("order", .nats order)])
  | reshape sizes => .tagged "Reshape" (.object [("output_shape", .option .nats sizes)])
  | reduce mode axes keepDims =>
    .tagged "Reduce" (.object [("mode", .string mode.tag), ("axes", .nats axes), ("keep_dims", .bool keepDims)])
  | crop axis offset length =>
    .tagged "Crop" (.object [("axis", .nat axis), ("offset", .nat offset), ("length", .nat length)])
  | concatenation axis => .tagged "Concatenation" (.object [("axis", .nat axis)])
  | fullyConnected compressed hasZeroPoint element =>
    .tagged "FullyConnected" (.object
      [("compressed", .bool compressed), ("has_zero_point", .bool hasZeroPoint),
       ("output_dtype", element.toValue)])
  | customKernel spec => .tagged "CustomKernel" spec.toValue

/-- Reads the variant of a payload. -/
def ofValue? (scalar? : Value → Option Binary32) (v : Value) : Option Payload :=
  match v.variant? with
  | some (tag, some payload) =>
    match tag with
    | "InputLayout" => do
      let r ← payload.record? ["spec"]
      pure (inputLayout (← r.required 0 TensorType.ofValue?))
    | "Data" => do
      let r ← payload.record? ["literal"]
      pure (data (← r.required 0 Literal.ofValue?))
    | "Reorder" => do
      let r ← payload.record? ["output_dtype"]
      pure (reorder (← r.required 0 ElementType.ofValue?))
    | "Eltwise" => do
      let r ← payload.record? ["mode", "output_dtype"]
      pure (eltwise (← r.required 0 EltwiseMode.ofValue?) (← r.required 1 ElementType.ofValue?))
    | "Activation" => do
      let r ← payload.record? ["func"]
      pure (activation (← r.required 0 ActivationFunction.ofValue?))
    | "Gemm" => (GemmSpec.ofValue? scalar? payload).map gemm
    | "Permute" => do
      let r ← payload.record? ["order"]
      pure (permute (← r.required 0 (Value.list? Value.nat?)))
    | "Reshape" => do
      let r ← payload.record? ["output_shape"]
      pure (reshape (← r.nullable 0 (Value.list? Value.nat?)))
    | "Reduce" => do
      let r ← payload.record? ["mode", "axes", "keep_dims"]
      pure (reduce (← r.required 0 ReduceMode.ofValue?) (← r.required 1 (Value.list? Value.nat?))
        (← r.required 2 Value.bool?))
    | "Crop" => do
      let r ← payload.record? ["axis", "offset", "length"]
      pure (crop (← r.required 0 Value.nat?) (← r.required 1 Value.nat?) (← r.required 2 Value.nat?))
    | "Concatenation" => do
      let r ← payload.record? ["axis"]
      pure (concatenation (← r.required 0 Value.nat?))
    | "FullyConnected" => do
      let r ← payload.record? ["compressed", "has_zero_point", "output_dtype"]
      pure (fullyConnected (← r.required 0 Value.bool?) (← r.required 1 Value.bool?)
        (← r.required 2 ElementType.ofValue?))
    | "CustomKernel" => (KernelSpec.ofValue? payload).map customKernel
    | _ => none
  | _ => none

end Payload

/-- The record of an output. -/
def Source.toValue (s : Source) : Value := .object [("pid", .string s.id), ("idx", .nat s.output)]

/-- The record of a primitive. -/
def Primitive.toValue (scalar : Binary32 → Value) (p : Primitive) : Value :=
  .object [("id", .string p.id), ("kind", p.payload.toValue scalar),
    ("inputs", .array (p.inputs.map Source.toValue)), ("origin_op_name", .string p.originName),
    ("origin_op_type_name", .string p.originType)]

end TensorLowering
