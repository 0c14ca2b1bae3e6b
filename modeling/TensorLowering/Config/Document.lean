import TensorLowering.Config.Basic
import TensorLowering.Files
import TensorLowering.Json.Reader
import TensorLowering.Json.Record

/-! # Configurations in documents

A configuration is a record in which every field may be left out. -/

namespace TensorLowering

open Json

namespace MatMulTuning

/-- The record of the bounds. -/
def toValue (t : MatMulTuning) : Value :=
  .object [("alignment", .nat t.alignment), ("large_dim", .nat t.largeExtent),
    ("large_tensor_elements", .nat t.largeCount)]

/-- Reads the record of the bounds. -/
def ofValue? (v : Value) : Option MatMulTuning := do
  let r ← v.record? ["alignment", "large_dim", "large_tensor_elements"]
  let d : MatMulTuning := {}
  pure {
    alignment := ← r.defaulted 0 Value.nat? d.alignment
    largeExtent := ← r.defaulted 1 Value.nat? d.largeExtent
    largeCount := ← r.defaulted 2 Value.nat? d.largeCount }

end MatMulTuning

/-- Why there is no configuration. -/
inductive ConfigError where
  | io (path : String)
  | parse
  deriving DecidableEq, Repr

namespace BuildConfig

/-- The names of the fields. -/
def fieldNames : List String :=
  ["enable_profiling", "allow_new_shape_infer", "partial_build", "optimize_data",
   "global_custom_kernels_config", "custom_kernels_config", "custom_kernels_override", "matmul"]

/-- The record of a configuration. -/
def toValue (c : BuildConfig) : Value :=
  .object (fieldNames.zip
    [.bool c.profiling, .bool c.newShapeInference, .bool c.partialBuild, .bool c.optimizeData,
     .option .string c.globalOverlay, .option .string c.overlay, .bool c.overlayReplaces,
     c.matmul.toValue])

/-- Reads the record of a configuration. -/
def ofValue? (v : Value) : Option BuildConfig := do
  let r ← v.record? fieldNames
  pure {
    profiling := ← r.defaulted 0 Value.bool? false
    newShapeInference := ← r.defaulted 1 Value.bool? false
    partialBuild := ← r.defaulted 2 Value.bool? false
    optimizeData := ← r.defaulted 3 Value.bool? false
    globalOverlay := ← r.defaulted 4 (Value.option? Value.string?) none
    overlay := ← r.defaulted 5 (Value.option? Value.string?) none
    overlayReplaces := ← r.defaulted 6 Value.bool? false
    matmul := ← r.defaulted 7 MatMulTuning.ofValue? {} }

/-- The configuration that a text holds. -/
def ofText (text : String) : Except ConfigError BuildConfig :=
  match (parse? text).bind ofValue? with
  | some config => .ok config
  | none => .error .parse

/-- The configuration in a file. -/
def ofFile (files : Files) (path : String) : Except ConfigError BuildConfig :=
  match files.read path with
  | .text text => ofText text
  | _ => .error (.io path)

end BuildConfig

end TensorLowering
