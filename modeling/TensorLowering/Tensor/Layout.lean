import TensorLowering.Tensor.Basic
import TensorLowering.Tensor.Indexing

/-! # Rearrangements

Operations that move elements without looking at them: permuting the axes, changing the sizes,
cutting a range out of an axis, and joining tensors along an axis. They work for every element
type. -/

namespace TensorLowering

open Numeric Indexing

namespace Tensor

/-- The tensor whose elements stand at the given positions of `t`. -/
def rearrange (t : Tensor) (sizes positions : List Nat) : Outcome EngineError Tensor := do
  new sizes (← .ofOption (t.elements.gather positions))

/-- Permutes the axes: axis `i` of the result is axis `order[i]` of the input. -/
def permute (input : Tensor) (order : List Nat) : Outcome EngineError Tensor := do
  if order.length ≠ input.rank ∨ order.any (input.rank ≤ ·) then
    failExecution (.permutationRank order input.rank)
  let sizes ← .ofOption (order.mapM (input.sizes[·]?))
  let steps ← .ofOption (order.mapM ((strides input.sizes)[·]?))
  let positions ← (List.range input.count).mapM fun index => do
    let coords ← coordinates sizes index
    pure (offset coords steps)
  input.rearrange sizes positions

/-- Gives the elements other sizes. -/
def reshape (input : Tensor) (sizes : List Nat) : Outcome EngineError Tensor :=
  if wordVolume sizes ≠ input.count then failExecution (.reshapeCount input.sizes sizes)
  else new sizes input.elements

/-- The part of an axis from `start` on, `length` long. -/
def crop (input : Tensor) (axis start length : Nat) : Outcome EngineError Tensor := do
  let some size := input.sizes[axis]?
    | failExecution (.cropRange start length axis input.sizes)
  if size < wrap (start + length) then failExecution (.cropRange start length axis input.sizes)
  let sizes := input.sizes.set axis length
  let positions ← (List.range (wordVolume sizes)).mapM fun index => do
    let coords ← coordinates sizes index
    pure (offset (coords.modify axis (· + start)) (strides input.sizes))
  input.rearrange sizes positions

/-- True when two size lists differ at most on one axis. -/
def agreeExcept (axis : Nat) (sizes first : List Nat) : Bool :=
  sizes.length == first.length && sizes.eraseIdx axis == first.eraseIdx axis

/-- The elements from one position to another, which must be there in this order. -/
def slice {α : Type} (values : Array α) (first last : Nat) : Outcome EngineError (List α) :=
  if first ≤ last ∧ last ≤ values.size then .ok (values.extract first last).toList else .abort

/-- Joins parts chunk by chunk: for every outer index the chunk of each part in turn. -/
def joinChunks {α : Type} (outer : Nat) (parts : List (Array α × Nat)) : Outcome EngineError (Array α) := do
  let pieces ← (List.range outer).mapM fun o =>
    parts.mapM fun (values, chunk) => slice values (wrap (o * chunk)) (wrap ((o + 1) * chunk))
  pure (pieces.map List.flatten).flatten.toArray

/-- The elements of all parts, which must be of one type. -/
def partsOf {α : Type} (view : Elements → Option (Array α)) (inputs : List Tensor) :
    Outcome EngineError (List (Array α)) :=
  inputs.mapM fun t => .ofOptionOr (.execution .concatenateElements) (view t.elements)

/-- Joins tensors along an axis. They must have one element type, and their other sizes must
agree. -/
def concat (inputs : List Tensor) (axis : Nat) : Outcome EngineError Tensor := do
  let some first := inputs.head?
    | failExecution .concatenateNothing
  if first.rank ≤ axis then failExecution (.concatenateAxis axis first.rank)
  inputs.forM fun t =>
    if agreeExcept axis t.sizes first.sizes then pure ()
    else failExecution (.concatenateShapes t.sizes first.sizes axis)
  let outer := wordVolume (first.sizes.take axis)
  let chunks := inputs.map fun t => wordVolume (t.sizes.drop axis)
  let extents ← .ofOption (inputs.mapM (·.sizes[axis]?))
  let sizes := first.sizes.set axis (wrap (extents.foldr (· + ·) 0))
  match first.elements with
  | .f32 _ => do
    let parts ← partsOf (fun | .f32 vs => some vs | _ => none) inputs
    new sizes (.f32 (← joinChunks outer (parts.zip chunks)))
  | .i32 _ => do
    let parts ← partsOf (fun | .i32 vs => some vs | _ => none) inputs
    new sizes (.i32 (← joinChunks outer (parts.zip chunks)))
  | .i64 _ => do
    let parts ← partsOf (fun | .i64 vs => some vs | _ => none) inputs
    new sizes (.i64 (← joinChunks outer (parts.zip chunks)))

end Tensor

end TensorLowering
