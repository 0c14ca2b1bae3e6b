import TensorLowering.Tensor.Elementwise

/-! # Matrix products

The batched product of two tensors over their last two axes, and the product with a matrix of
weights that is stored row by row and may be compressed. A sum is accumulated in order, each step
rounding once. -/

namespace TensorLowering

open Numeric Indexing

namespace Tensor

/-- The sum of `length` products of corresponding factors, added in order to `start`. -/
def dot (start : Binary32) (length : Nat) (left right : Nat → Outcome EngineError Binary32) :
    Outcome EngineError Binary32 :=
  (List.range length).foldlM (fun total p => do
    let x ← left p
    let y ← right p
    pure (total + x * y)) start

/-- The sizes of an operand of a matrix product: a leading batch, rows and columns. -/
structure MatrixSizes where
  batch : List Nat
  rows : Nat
  columns : Nat
  deriving DecidableEq, Repr

namespace MatrixSizes

/-- The sizes of the operand; a single axis is the missing one's neighbour. -/
def ofSizes (vector : Nat → Nat × Nat) : List Nat → Option MatrixSizes
  | [] => none
  | [length] => some ⟨[], (vector length).1, (vector length).2⟩
  | [rows, columns] => some ⟨[], rows, columns⟩
  | size :: rest => (ofSizes vector rest).map fun m => { m with batch := size :: m.batch }

/-- The elements of one matrix of the batch. -/
def area (m : MatrixSizes) : Nat := m.rows * m.columns

end MatrixSizes

/-- The batched matrix product over the last two axes. A tensor with one axis is a row on the left
and a column on the right; that axis is dropped from the result, and its transpose flag does not
count. -/
def gemm (lhs rhs : Tensor) (spec : GemmSpec) : Outcome EngineError Tensor := do
  let some left := MatrixSizes.ofSizes (fun k => (1, k)) lhs.sizes
    | failUnimplemented .scalarProduct
  let some right := MatrixSizes.ofSizes (fun k => (k, 1)) rhs.sizes
    | failUnimplemented .scalarProduct
  let vectorA := lhs.rank = 1
  let vectorB := rhs.rank = 1
  let transposeA := spec.transposeA && !vectorA
  let transposeB := spec.transposeB && !vectorB
  let a ← lhs.floats
  let b ← rhs.floats
  let (m, k) := if transposeA then (left.columns, left.rows) else (left.rows, left.columns)
  let (depth, n) := if transposeB then (right.columns, right.rows) else (right.rows, right.columns)
  if k ≠ depth then failExecution (.contractionMismatch lhs.sizes rhs.sizes)
  let batch ← broadcast left.batch right.batch
  let values ← (List.range (wordVolume batch)).mapM fun index => do
    let coords ← coordinates batch index
    let startA := wrap ((← sourceOffset coords left.batch) * left.area)
    let startB := wrap ((← sourceOffset coords right.batch) * right.area)
    (List.range m).mapM fun i =>
      (List.range n).mapM fun j => do
        let total ← dot .zero k
          (fun p => .ofOption
            a[wrap (startA + (if transposeA then p * left.columns + i else i * left.columns + p))]?)
          (fun p => .ofOption
            b[wrap (startB + (if transposeB then j * right.columns + p else p * right.columns + j))]?)
        pure (spec.alpha * total)
  ofFloats (batch ++ (if vectorA then [] else [m]) ++ (if vectorB then [] else [n]))
    (values.map List.flatten).flatten

/-- The weights as 32-bit numbers: less the zero point, times the scale, where these are given. -/
def decompress (weights : Tensor) (scale zeroPoint : Option Tensor) :
    Outcome EngineError (Array Binary32) := do
  let plain := weights.elements.toFloats.toList
  let centred ← match zeroPoint with
    | some z => do pure (List.zipWith (· - ·) plain (← z.spread weights.sizes))
    | none => pure plain
  let scaled ← match scale with
    | some s => do pure (List.zipWith (· * ·) centred (← s.spread weights.sizes))
    | none => pure centred
  pure scaled.toArray

/-- The product of the rows of the input with the rows of the weights. The sums start from negative
zero. -/
def fullyConnected (input weights : Tensor) (scale zeroPoint : Option Tensor) :
    Outcome EngineError Tensor := do
  let x ← input.floats
  let some k := input.sizes.getLast?
    | failExecution .fullyConnectedScalar
  let [n, depth] := weights.sizes
    | failExecution (.fullyConnectedWeights weights.sizes input.sizes)
  if depth ≠ k then failExecution (.fullyConnectedWeights weights.sizes input.sizes)
  let w ← decompress weights scale zeroPoint
  let rows := if k = 0 then 0 else x.size / k
  let values ← (List.range rows).mapM fun r =>
    (List.range n).mapM fun j =>
      dot .negZero k (fun p => .ofOption x[r * k + p]?) (fun p => .ofOption w[wrap (j * k + p)]?)
  ofFloats (input.sizes.dropLast ++ [n]) values.flatten

end Tensor

end TensorLowering
