import TensorLowering.Primitive.Basic
import TensorLowering.Tensor.Basic
import TensorLowering.Tensor.Indexing

/-! # Elementwise operations

Binary operations read both operands at the coordinates of the result, broadcasting where the sizes
differ; the error function is applied to every element. The error function itself belongs to a
library of mathematical functions, whose last bits differ from one library to the next; whatever
needs it takes it as an argument.

Elements are converted between the three types of tensors. A number becomes the integer next to it
towards zero, clamped to the range of its type; a 64-bit integer keeps its low 32 bits. -/

namespace TensorLowering

open Numeric Indexing

/-- The operation on two elements; each step rounds once. -/
def EltwiseMode.apply (mode : EltwiseMode) (x y : Binary32) : Binary32 :=
  match mode with
  | sum => x + y
  | sub => x - y
  | prod => x * y
  | div => x / y
  | squaredDiff => (x - y) * (x - y)
  | pow => x.pow y
  | floorMod => x - (x / y).floor * y
  | mod => x.remainder y
  | max => x.max y
  | min => x.min y

/-- An error function of 32-bit numbers. Its rounding is left open: programs and evaluation are given
one, and any will do for a graph that has no error functions. -/
abbrev ErrorFunction := Binary32 → Binary32

namespace Tensor

/-- The common sizes of two operands. -/
def broadcast (lhs rhs : List Nat) : Outcome EngineError (List Nat) :=
  .ofOptionOr (.execution (.noBroadcast lhs rhs)) (broadcastSizes lhs rhs)

/-- The element of a broadcast operand at the given coordinates of the result. -/
def elementAt (values : Array Binary32) (sizes coords : List Nat) : Outcome EngineError Binary32 := do
  .ofOption values[← sourceOffset coords sizes]?

/-- Combines two operands element by element. -/
def eltwise (mode : EltwiseMode) (lhs rhs : Tensor) : Outcome EngineError Tensor := do
  let a ← lhs.floats
  let b ← rhs.floats
  let sizes ← broadcast lhs.sizes rhs.sizes
  let values ← (List.range (wordVolume sizes)).mapM fun index => do
    let coords ← coordinates sizes index
    let x ← elementAt a lhs.sizes coords
    let y ← elementAt b rhs.sizes coords
    pure (mode.apply x y)
  ofFloats sizes values

/-- The error function of every element. -/
def erf (input : Tensor) (function : ErrorFunction) : Outcome EngineError Tensor := do
  let values ← input.floats
  ofFloats input.sizes (values.toList.map function)

/-- The elements of a tensor, converted to 32-bit numbers and spread over larger sizes. -/
def spread (t : Tensor) (target : List Nat) : Outcome EngineError (List Binary32) := do
  let sizes ← broadcast t.sizes target
  if sizes ≠ target then failExecution (.noBroadcastTo t.sizes target)
  let values := t.elements.toFloats
  (List.range (wordVolume target)).mapM fun index => do
    let coords ← coordinates target index
    elementAt values t.sizes coords

/-- The elements as elements of another type. -/
def convertElements (target : ElementType) : Elements → Outcome EngineError Elements
  | elements =>
    match elements, target with
    | elements, .f32 => .ok (.f32 elements.toFloats)
    | .f32 values, .i32 => .ok (.i32 (values.map Binary32.toInt32))
    | .i64 values, .i32 => .ok (.i32 (values.map Int64.toInt32))
    | .f32 values, .i64 => .ok (.i64 (values.map Binary32.toInt64))
    | .i32 values, .i64 => .ok (.i64 (values.map Int32.toInt64))
    | _, other => failUnimplemented (.conversion other)

/-- The tensor with elements of another type. -/
def convert (input : Tensor) (target : ElementType) : Outcome EngineError Tensor := do
  if input.element = target then pure input
  else new input.sizes (← convertElements target input.elements)

end Tensor

end TensorLowering
