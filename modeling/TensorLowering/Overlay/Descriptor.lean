import TensorLowering.Json.Record

/-! # Kernel descriptors

A kernel that stands in for the builder of an operation type: its source, the defines it is compiled
with, the inputs and outputs it is bound to, and its work sizes as expressions. -/

namespace TensorLowering

open Json

/-- A define, with the attribute that supplies its value and the value that it has otherwise. -/
structure KernelDefine where
  name : String
  parameter : Option String
  fallback : Option String
  deriving DecidableEq, Repr

/-- An input or output of the node that the kernel is bound to. -/
structure KernelBinding where
  index : Nat
  format : Option String
  deriving DecidableEq, Repr

/-- A kernel for an operation type. -/
structure KernelDescriptor where
  type : String
  entryPoint : String
  source : String
  defines : List KernelDefine
  inputs : List KernelBinding
  outputs : List KernelBinding
  compilerOptions : String
  globalWorkSize : List String
  localWorkSize : List String
  deriving DecidableEq, Repr

/-- The record of a define. -/
def KernelDefine.toValue (d : KernelDefine) : Value :=
  .object [("name", .string d.name), ("param", .option .string d.parameter),
    ("default", .option .string d.fallback)]

/-- Reads the record of a define. -/
def KernelDefine.ofValue? (v : Value) : Option KernelDefine := do
  let r ← v.record? ["name", "param", "default"]
  pure ⟨← r.required 0 Value.string?, ← r.defaulted 1 (Value.option? Value.string?) none,
    ← r.defaulted 2 (Value.option? Value.string?) none⟩

/-- The record of a binding. -/
def KernelBinding.toValue (b : KernelBinding) : Value :=
  .object [("port", .nat b.index), ("format", .option .string b.format)]

/-- Reads the record of a binding. -/
def KernelBinding.ofValue? (v : Value) : Option KernelBinding := do
  let r ← v.record? ["port", "format"]
  pure ⟨← r.required 0 Value.nat?, ← r.defaulted 1 (Value.option? Value.string?) none⟩

namespace KernelDescriptor

/-- The names of the fields. -/
def fieldNames : List String :=
  ["type", "entry_point", "source", "defines", "inputs", "outputs", "compiler_options",
   "global_work_size", "local_work_size"]

/-- The record of a descriptor. -/
def toValue (k : KernelDescriptor) : Value :=
  .object (fieldNames.zip
    [.string k.type, .string k.entryPoint, .string k.source, .array (k.defines.map KernelDefine.toValue),
     .array (k.inputs.map KernelBinding.toValue), .array (k.outputs.map KernelBinding.toValue),
     .string k.compilerOptions, .strings k.globalWorkSize, .strings k.localWorkSize])

/-- Reads the record of a descriptor. -/
def ofValue? (v : Value) : Option KernelDescriptor := do
  let r ← v.record? fieldNames
  pure {
    type := ← r.required 0 Value.string?
    entryPoint := ← r.required 1 Value.string?
    source := ← r.required 2 Value.string?
    defines := ← r.defaulted 3 (Value.list? KernelDefine.ofValue?) []
    inputs := ← r.defaulted 4 (Value.list? KernelBinding.ofValue?) []
    outputs := ← r.defaulted 5 (Value.list? KernelBinding.ofValue?) []
    compilerOptions := ← r.defaulted 6 Value.string? ""
    globalWorkSize := ← r.defaulted 7 (Value.list? Value.string?) []
    localWorkSize := ← r.defaulted 8 (Value.list? Value.string?) [] }

end KernelDescriptor

end TensorLowering
