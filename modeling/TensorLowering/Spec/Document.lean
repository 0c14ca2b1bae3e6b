import TensorLowering.Json.Record
import TensorLowering.Spec.Literal

/-! # Types and literals in documents

An extent is a variant with a number or a symbol, a shape is a record with its extents, a tensor
type a record of an element tag and a shape, and a literal a record of a type and its bytes. -/

namespace TensorLowering

open Json

namespace ElementType

/-- The tag of the type. -/
def toValue (t : ElementType) : Value := .string t.tag

/-- The type with a tag. -/
def ofValue? : Value → Option ElementType := Value.unit? (all.map fun t => (t.tag, t))

end ElementType

namespace Extent

/-- A variant with a number or a symbol. -/
def toValue : Extent → Value
  | fixed size => .tagged "Static" (.nat size)
  | symbolic symbol => .tagged "Dynamic" (.string symbol)

/-- Reads a variant with a number or a symbol. -/
def ofValue? (v : Value) : Option Extent :=
  match v.variant? with
  | some ("Static", some payload) => payload.nat?.map fixed
  | some ("Dynamic", some payload) => payload.string?.map symbolic
  | _ => none

end Extent

namespace Shape

/-- The record of a shape. -/
def toValue (s : Shape) : Value := .object [("dims", .array (s.extents.map Extent.toValue))]

/-- Reads the record of a shape. -/
def ofValue? (v : Value) : Option Shape := do
  let r ← v.record? ["dims"]
  pure ⟨← r.required 0 (Value.list? Extent.ofValue?)⟩

end Shape

namespace TensorType

/-- The record of a tensor type. -/
def toValue (t : TensorType) : Value :=
  .object [("dtype", t.element.toValue), ("shape", t.shape.toValue)]

/-- Reads the record of a tensor type. -/
def ofValue? (v : Value) : Option TensorType := do
  let r ← v.record? ["dtype", "shape"]
  pure ⟨← r.required 0 ElementType.ofValue?, ← r.required 1 Shape.ofValue?⟩

end TensorType

namespace Literal

/-- The record of a literal. -/
def toValue (l : Literal) : Value :=
  .object [("spec", l.type.toValue), ("bytes", .nats (l.bytes.map UInt8.toNat))]

/-- Reads the record of a literal. -/
def ofValue? (v : Value) : Option Literal := do
  let r ← v.record? ["spec", "bytes"]
  pure ⟨← r.required 0 TensorType.ofValue?, ← r.required 1 (Value.list? Value.byte?)⟩

end Literal

end TensorLowering
