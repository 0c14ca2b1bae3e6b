import TensorLowering.Bytes
import TensorLowering.Spec.ElementType
import TensorLowering.Spec.Shape

/-! # Tensor types and literals

A tensor type pairs an element type with a shape. A literal is a tensor type with its payload as
bytes; the payload is not promised to have the length that the type asks for. -/

namespace TensorLowering

open Numeric

/-- The element type and the shape of a tensor. -/
structure TensorType where
  element : ElementType
  shape : Shape
  deriving DecidableEq, Repr

namespace TensorType

/-- The type with the given sizes. -/
def ofSizes (element : ElementType) (sizes : List Nat) : TensorType := ⟨element, .ofSizes sizes⟩

/-- The number of elements, when it is known and fits a word. -/
def elementCount? (t : TensorType) : Option Nat := t.shape.elementCount?

/-- The length of the payload in bytes, when it is known and fits a word. -/
def byteLength? (t : TensorType) : Option Nat :=
  t.elementCount?.bind fun count =>
    if count * t.element.sizeInBytes < UInt64.size then some (count * t.element.sizeInBytes) else none

/-- The element type, a space, and the shape. -/
def text (t : TensorType) : String := t.element.name ++ " " ++ t.shape.text

end TensorType

/-- A constant tensor as it is stored in a graph. -/
structure Literal where
  type : TensorType
  bytes : List UInt8
  deriving DecidableEq, Repr

namespace Literal

/-- The literal of 32-bit numbers. -/
def ofFloats (sizes : List Nat) (values : List Binary32) : Literal :=
  ⟨.ofSizes .f32 sizes, values.flatMap Bytes.ofBinary32⟩

/-- The literal of 64-bit integers. -/
def ofIntegers (sizes : List Nat) (values : List Int64) : Literal :=
  ⟨.ofSizes .i64 sizes, values.flatMap Bytes.ofInt64⟩

/-- The literal of 64-bit integers with one axis. -/
def ofIntegerList (values : List Int64) : Literal := ofIntegers [values.length] values

/-- The elements of an integer literal, widened to 64 bits. -/
def integers? (l : Literal) : Option (List Int64) :=
  match l.type.element with
  | .i32 => some ((Bytes.words32 l.bytes).map fun w => w.toInt32.toInt64)
  | .i64 => some ((Bytes.words64 l.bytes).map UInt64.toInt64)
  | _ => none

/-- The elements of a literal of 32-bit numbers. -/
def floats? (l : Literal) : Option (List Binary32) :=
  match l.type.element with
  | .f32 => some ((Bytes.words32 l.bytes).map Binary32.mk)
  | _ => none

end Literal

end TensorLowering
