import TensorLowering.Primitive.Basic
import TensorLowering.Tensor.Basic
import TensorLowering.Tensor.Indexing

/-! # Reductions

A reduction folds the elements along some axes, in row-major order, into one element for each
position of the other axes. -/

namespace TensorLowering

open Numeric Indexing

namespace ReduceMode

/-- The value that the fold starts from. -/
def initial : ReduceMode → Binary32
  | prod => .one
  | max => .negInfinity
  | min => .infinity
  | sum | mean | l1 | l2 => .zero

/-- Adds one element to the fold. -/
def step (mode : ReduceMode) (total value : Binary32) : Binary32 :=
  match mode with
  | sum | mean => total + value
  | prod => total * value
  | max => total.max value
  | min => total.min value
  | l1 => total + value.abs
  | l2 => total + value * value

/-- The result of a fold over `count` elements. -/
def finish (mode : ReduceMode) (count : Nat) (total : Binary32) : Binary32 :=
  match mode with
  | mean => total / .ofInt count
  | l2 => total.sqrt
  | _ => total

end ReduceMode

namespace Tensor

/-- Folds every value into its slot, in order. -/
def foldSlots (step : Binary32 → Binary32 → Binary32) (slots : Array Binary32)
    (hits : List (Nat × Binary32)) : Array Binary32 :=
  hits.foldl (fun slots hit => slots.modify hit.1 (step · hit.2)) slots

/-- The sizes with the given axes reduced to one. -/
def keptSizes (axes sizes : List Nat) : List Nat :=
  sizes.zipIdx.map fun (size, axis) => if axes.contains axis then 1 else size

/-- The sizes without the given axes. -/
def droppedSizes (axes sizes : List Nat) : List Nat :=
  (sizes.zipIdx.filter fun (_, axis) => !axes.contains axis).map (·.1)

/-- The coordinates with the given axes at zero. -/
def keptCoordinates (axes coords : List Nat) : List Nat :=
  coords.zipIdx.map fun (coord, axis) => if axes.contains axis then 0 else coord

/-- Reduces the given axes, which stay with size one when `keepDims`. -/
def reduce (input : Tensor) (mode : ReduceMode) (axes : List Nat) (keepDims : Bool) :
    Outcome EngineError Tensor := do
  let values ← input.floats
  match axes.find? (input.rank ≤ ·) with
  | some axis => failExecution (.reduceAxis axis input.rank)
  | none => pure ()
  let kept := keptSizes axes input.sizes
  let folded := wordVolume (← .ofOption (axes.mapM (input.sizes[·]?)))
  let hits ← values.toList.zipIdx.mapM fun (value, index) => do
    let coords ← coordinates input.sizes index
    let slot := offset (keptCoordinates axes coords) (strides kept)
    if slot < wordVolume kept then pure (slot, value) else .abort
  let slots := foldSlots mode.step (Array.replicate (wordVolume kept) mode.initial) hits
  ofFloats (if keepDims then kept else droppedSizes axes input.sizes)
    (slots.toList.map (mode.finish folded))

end Tensor

end TensorLowering
