/-! # Element types

The scalar types of tensor elements, with their names in texts and their tags in documents. -/

namespace TensorLowering

/-- The scalar type of the elements of a tensor. -/
inductive ElementType where
  | boolean
  | i8
  | u8
  | i32
  | i64
  | bf16
  | f16
  | f32
  deriving DecidableEq, Repr, Inhabited

namespace ElementType

/-- All element types, in the order in which they are numbered. -/
def all : List ElementType := [boolean, i8, u8, i32, i64, bf16, f16, f32]

/-- Signed or unsigned integers of any width. -/
def isInteger : ElementType → Bool
  | i8 | u8 | i32 | i64 => true
  | _ => false

/-- The quantized integers of eight bits. -/
def isByteInteger : ElementType → Bool
  | i8 | u8 => true
  | _ => false

/-- Floating-point numbers of any width. -/
def isFloat : ElementType → Bool
  | bf16 | f16 | f32 => true
  | _ => false

/-- The bytes that one element takes. -/
def sizeInBytes : ElementType → Nat
  | boolean | i8 | u8 => 1
  | bf16 | f16 => 2
  | i32 | f32 => 4
  | i64 => 8

/-- The name in texts. -/
def name : ElementType → String
  | boolean => "boolean"
  | i8 => "i8"
  | u8 => "u8"
  | i32 => "i32"
  | i64 => "i64"
  | bf16 => "bf16"
  | f16 => "f16"
  | f32 => "f32"

/-- The tag in documents. -/
def tag : ElementType → String
  | boolean => "I1"
  | i8 => "Si8"
  | u8 => "Ui8"
  | i32 => "Si32"
  | i64 => "Si64"
  | bf16 => "Bf16"
  | f16 => "F16"
  | f32 => "F32"

/-- The number of the type in the byte encoding. -/
def code : ElementType → Nat
  | boolean => 0
  | i8 => 1
  | u8 => 2
  | i32 => 3
  | i64 => 4
  | bf16 => 5
  | f16 => 6
  | f32 => 7

end ElementType

end TensorLowering
