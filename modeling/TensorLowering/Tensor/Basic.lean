import TensorLowering.Engine.Error

/-! # Tensors

A tensor holds its elements in row-major order in one of three element types. Its number of elements
is the product of its sizes in words; `Tensor.new` refuses anything else. A tensor is well formed when
it has an element for all of its coordinates, which it has unless the product wraps around. -/

namespace TensorLowering

open Numeric

/-- The elements of a tensor. -/
inductive Elements where
  | f32 (values : Array Binary32)
  | i32 (values : Array Int32)
  | i64 (values : Array Int64)
  deriving DecidableEq, Repr

namespace Elements

/-- The number of elements. -/
def size : Elements → Nat
  | f32 values => values.size
  | i32 values => values.size
  | i64 values => values.size

/-- The element type. -/
def element : Elements → ElementType
  | f32 _ => .f32
  | i32 _ => .i32
  | i64 _ => .i64

/-- The elements converted to 32-bit numbers. -/
def toFloats : Elements → Array Binary32
  | f32 values => values
  | i32 values => values.map fun n => .ofInt n.toInt
  | i64 values => values.map fun n => .ofInt n.toInt

/-- The elements at the given positions; there is none beyond the end. -/
def gather (positions : List Nat) : Elements → Option Elements
  | f32 values => (positions.mapM (values[·]?)).map fun vs => f32 vs.toArray
  | i32 values => (positions.mapM (values[·]?)).map fun vs => i32 vs.toArray
  | i64 values => (positions.mapM (values[·]?)).map fun vs => i64 vs.toArray

end Elements

/-- A dense tensor in row-major order. -/
structure Tensor where
  sizes : List Nat
  elements : Elements
  count_eq : wordVolume sizes = elements.size
  deriving DecidableEq, Repr

namespace Tensor

/-- The tensor with the given sizes, if the elements are as many as the sizes ask for. -/
def new (sizes : List Nat) (elements : Elements) : Outcome EngineError Tensor :=
  if h : wordVolume sizes = elements.size then .ok ⟨sizes, elements, h⟩
  else failExecution (.elementCount sizes elements.size)

/-- The tensor of 32-bit numbers with the given sizes. -/
def ofFloats (sizes : List Nat) (values : List Binary32) : Outcome EngineError Tensor :=
  new sizes (.f32 values.toArray)

/-- The number of elements. -/
def count (t : Tensor) : Nat := t.elements.size

/-- There are as many elements as the sizes stand for. -/
def WellFormed (t : Tensor) : Prop := volume t.sizes = t.elements.size

instance (t : Tensor) : Decidable t.WellFormed := inferInstanceAs (Decidable (_ = _))

/-- The number of axes. -/
def rank (t : Tensor) : Nat := t.sizes.length

/-- The element type. -/
def element (t : Tensor) : ElementType := t.elements.element

/-- The type of the tensor. -/
def type (t : Tensor) : TensorType := .ofSizes t.element t.sizes

/-- The elements, which must be 32-bit numbers. -/
def floats (t : Tensor) : Outcome EngineError (Array Binary32) :=
  match t.elements with
  | .f32 values => .ok values
  | other => failExecution (.notFloat other.element)

/-- The elements of an integer tensor, widened to 64 bits. -/
def integers? (t : Tensor) : Option (List Int64) :=
  match t.elements with
  | .i32 values => some (values.toList.map Int32.toInt64)
  | .i64 values => some values.toList
  | .f32 _ => none

/-- The tensor of a literal. Only the three element types of tensors are offered, and the payload
must have as many whole elements as the shape asks for. -/
def ofLiteral (l : Literal) : Outcome EngineError Tensor :=
  match l.type.shape.sizes? with
  | none => failExecution (.literalNotStatic l.type.shape)
  | some sizes =>
    match l.type.element with
    | .f32 => new sizes (.f32 ((Bytes.words32 l.bytes).map Binary32.mk).toArray)
    | .i32 => new sizes (.i32 ((Bytes.words32 l.bytes).map UInt32.toInt32).toArray)
    | .i64 => new sizes (.i64 ((Bytes.words64 l.bytes).map UInt64.toInt64).toArray)
    | other => failUnimplemented (.constantElement other)

variable {t : Tensor}

/-- A tensor is well formed exactly when a word holds the number of elements that its sizes stand
for. -/
theorem wellFormed_iff : t.WellFormed ↔ volume t.sizes < UInt64.size := by
  rw [WellFormed, ← t.count_eq, ← wordVolume_eq_volume_iff, eq_comm]

theorem WellFormed.volume_lt (h : t.WellFormed) : volume t.sizes < UInt64.size := wellFormed_iff.1 h

theorem WellFormed.wordVolume_eq (h : t.WellFormed) : wordVolume t.sizes = volume t.sizes :=
  wordVolume_eq_volume_iff.2 h.volume_lt

end Tensor

end TensorLowering
