import TensorLowering.Proofs.Tensor.Entries

/-!
# Some of the axes

Coordinates split into those on the axes that pass a test and those on the other axes. Axes of size
one can be left out of sizes and coordinates; the elements keep their numbers.

## Main statements

* `Indexing.rowMajor_eq`: numbers run through the coordinates in row-major order.
* `Indexing.number_fillAxes`: axes of size one have no part in the number of an element.
* `Indexing.countP_rowMajor`: with the coordinates on some axes given, there are as many coordinates
  as the other axes have places.
-/

namespace TensorLowering

namespace Indexing

section RowMajor

/-- All coordinates below the sizes, in row-major order: the last coordinate runs fastest. -/
def rowMajor : List Nat → List (List Nat)
  | [] => [[]]
  | size :: sizes => (List.range size).flatMap fun coord => (rowMajor sizes).map (coord :: ·)

theorem range_mul (m n : Nat) :
    List.range (m * n) = (List.range m).flatMap fun i => (List.range n).map (i * n + ·) := by
  induction m with
  | zero => simp
  | succ m ih => rw [Nat.succ_mul, List.range_add, ih, List.range_succ, List.flatMap_append,
      List.flatMap_singleton]

/-- Numbers run through the coordinates in row-major order. -/
theorem rowMajor_eq (sizes : List Nat) :
    rowMajor sizes = (List.range (volume sizes)).map (digits sizes) := by
  induction sizes with
  | nil => rfl
  | cons size sizes ih =>
      rw [rowMajor, volume, range_mul, List.map_flatMap]
      apply List.flatMap_congr
      intro coord hcoord
      rw [List.mem_range] at hcoord
      rw [ih, List.map_map, List.map_map]
      apply List.map_congr_left
      intro index hindex
      rw [List.mem_range] at hindex
      simp only [Function.comp_apply, digits]
      rw [row_index_div hindex, Nat.mod_eq_of_lt hcoord,
        ← digits_mod sizes (coord * volume sizes + index), row_index_mod hindex]

/-- Row-major order runs through the coordinates in range. -/
theorem inRange_of_mem_rowMajor {sizes coords : List Nat} (h : coords ∈ rowMajor sizes) :
    InRange coords sizes := by
  rw [rowMajor_eq] at h
  obtain ⟨index, hindex, rfl⟩ := List.mem_map.1 h
  exact inRange_digits (zero_notMem_of_lt_volume (List.mem_range.1 hindex)) index

end RowMajor

section Axes

/-- What a list has on the axes that pass a test. -/
def onAxes (test : Nat → Bool) (xs : List Nat) : List Nat :=
  (xs.zipIdx.filter fun entry => test entry.2).map (·.1)

/-- A list with one value on the axes that fail a test. -/
def fillAxes (test : Nat → Bool) (value : Nat) (xs : List Nat) : List Nat :=
  xs.mapIdx fun axis x => if test axis then x else value

variable {test : Nat → Bool} {xs sizes coords : List Nat}

theorem onAxes_cons (test : Nat → Bool) (x : Nat) (xs : List Nat) :
    onAxes test (x :: xs) =
      if test 0 then x :: onAxes (fun axis => test (axis + 1)) xs
      else onAxes (fun axis => test (axis + 1)) xs := by
  rw [onAxes, List.zipIdx_cons, List.zipIdx_succ, List.filter_cons, List.filter_map]
  split <;> simp [onAxes, Function.comp_def]

theorem fillAxes_cons (test : Nat → Bool) (value x : Nat) (xs : List Nat) :
    fillAxes test value (x :: xs) =
      (if test 0 then x else value) :: fillAxes (fun axis => test (axis + 1)) value xs :=
  List.mapIdx_cons

/-- Axes of size one have no part in the volume. -/
theorem volume_fillAxes (test : Nat → Bool) (sizes : List Nat) :
    volume (fillAxes test 1 sizes) = volume (onAxes test sizes) := by
  induction sizes generalizing test with
  | nil => rfl
  | cons size sizes ih =>
      rw [fillAxes_cons, onAxes_cons, volume, ih]
      split
      · rw [volume]
      · rw [Nat.one_mul]

/-- Axes of size one have no part in the number of an element. -/
theorem number_fillAxes (test : Nat → Bool) (h : coords.length = sizes.length) :
    number (fillAxes test 0 coords) (places (fillAxes test 1 sizes)) =
      number (onAxes test coords) (places (onAxes test sizes)) := by
  induction coords generalizing test sizes with
  | nil =>
      obtain rfl : sizes = [] := List.length_eq_zero_iff.1 h.symm
      rfl
  | cons coord coords ih =>
      cases sizes with
      | nil => cases h
      | cons size sizes =>
          rw [fillAxes_cons, fillAxes_cons, places, number, ih _ (Nat.succ.inj h), volume_fillAxes,
            onAxes_cons, onAxes_cons]
          split
          · rw [places, number]
          · rw [Nat.zero_mul, Nat.zero_add]

theorem inRange_onAxes (test : Nat → Bool) (h : InRange coords sizes) :
    InRange (onAxes test coords) (onAxes test sizes) := by
  induction h generalizing test with
  | nil => exact .nil
  | cons hcoord _ ih =>
      rw [onAxes_cons, onAxes_cons]
      split
      · exact .cons hcoord (ih _)
      · exact ih _

@[simp] theorem onAxes_fillAxes (test : Nat → Bool) (value : Nat) (xs : List Nat) :
    onAxes test (fillAxes test value xs) = onAxes test xs := by
  induction xs generalizing test with
  | nil => rfl
  | cons x xs ih =>
      rw [fillAxes_cons, onAxes_cons, onAxes_cons, ih]
      split <;> rfl

/-- On axes of size one there is the coordinate zero only. -/
theorem fillAxes_of_inRange (h : InRange coords (fillAxes test 1 sizes)) :
    fillAxes test 0 coords = coords := by
  induction sizes generalizing test coords with
  | nil =>
      cases h
      rfl
  | cons size sizes ih =>
      rw [fillAxes_cons] at h
      cases h with
      | cons hcoord hrest =>
          rw [fillAxes_cons, ih hrest]
          congr 1
          split
          · rfl
          · next htest =>
            rw [if_neg htest] at hcoord
            exact (Nat.lt_one_iff.1 hcoord).symm

theorem onAxes_eq_map (test : Nat → Bool) (xs : List Nat) :
    onAxes test xs = ((List.range xs.length).filter test).map (xs.getD · 0) := by
  induction xs generalizing test with
  | nil => rfl
  | cons x xs ih =>
      rw [onAxes_cons, List.length_cons, List.range_succ_eq_map, List.filter_cons, List.filter_map, ih]
      split <;> simp [Function.comp_def]

end Axes

section Count

/-- A number is below a bound once or never. -/
theorem sum_range_ite (n k count : Nat) :
    ((List.range n).map fun i => if i = k then count else 0).sum = if k < n then count else 0 := by
  induction n with
  | zero => rfl
  | succ n ih =>
      rw [List.range_succ, List.map_append, List.sum_append, ih, List.map_singleton,
        List.sum_singleton]
      split_ifs <;> omega

/-- With the coordinates on some axes given, there are as many coordinates as the other axes have. -/
theorem countP_rowMajor (test : Nat → Bool) {sizes part : List Nat}
    (hpart : InRange part (onAxes test sizes)) :
    (rowMajor sizes).countP (fun coords => onAxes test coords = part) =
      volume (onAxes (fun axis => !test axis) sizes) := by
  induction sizes generalizing test part with
  | nil =>
      cases hpart
      rfl
  | cons size sizes ih =>
      simp only [rowMajor, List.countP_flatMap, Function.comp_def, List.countP_map]
      rw [onAxes_cons] at hpart ⊢
      cases htest : test 0 with
      | true =>
          rw [if_pos htest] at hpart
          obtain _ | @⟨coord, _, rest, _, hcoord, hrest⟩ := hpart
          have hcount : ∀ i, (rowMajor sizes).countP (fun coords =>
              onAxes test (i :: coords) = coord :: rest) =
                if i = coord then volume (onAxes (fun axis => !test (axis + 1)) sizes) else 0 := by
            intro i
            rw [← ih _ hrest]
            by_cases hi : i = coord
            · simp [onAxes_cons, htest, hi]
            · simp [onAxes_cons, htest, hi]
          simp only [hcount, sum_range_ite, if_pos hcoord]
          rfl
      | false =>
          rw [if_neg (by simp [htest])] at hpart
          simp only [onAxes_cons, htest, Bool.false_eq_true, if_false, ih _ hpart, List.map_const',
            List.length_range, List.sum_replicate_nat]
          rfl

end Count

end Indexing

end TensorLowering
