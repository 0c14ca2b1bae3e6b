import TensorLowering.Proofs.Tensor.Entries

/-!
# The row-major numbering

Where a word holds the number of elements, numbers below it and coordinates in range correspond to each
other, and the numbers are in the order in which coordinates are compared from the first axis on. None
of the products and sums that lead from one to the other wraps around then.

## Main statements

* `Indexing.strides_eq_places`: strides are what the coordinates count for.
* `Indexing.number_lt_number_iff`: the order of coordinates.
* `Indexing.coordinates_rowMajor`: the correspondence.
-/

namespace TensorLowering.Indexing

variable {sizes cs ds : List Nat} {index : Nat}

/-- A number below the volume is used up by the divisions. -/
theorem remainders_eq_ok (h : index < volume sizes) :
    (remainders sizes index : Outcome EngineError (Nat × List Nat)) =
      .ok (0, digits sizes index) := by
  rw [remainders_eq, if_neg (zero_notMem_of_lt_volume h), Nat.div_eq_of_lt h]

theorem dvd_volume_of_mem_places {step : Nat} (h : step ∈ places sizes) : step ∣ volume sizes := by
  induction sizes with
  | nil => cases h
  | cons size rest ih =>
      rw [volume]
      apply Nat.dvd_mul_left_of_dvd
      rcases List.mem_cons.1 h with rfl | hrest
      · exact Nat.dvd_refl _
      · exact ih hrest

theorem le_volume_of_mem_places {step : Nat} (hpos : 0 < volume sizes) (h : step ∈ places sizes) :
    step ≤ volume sizes :=
  Nat.le_of_dvd hpos (dvd_volume_of_mem_places h)

/-- Strides do not wrap around where a word holds the volume, unless that is zero. -/
theorem strides_eq_places (hpos : 0 < volume sizes) (hword : volume sizes < UInt64.size) :
    strides sizes = places sizes := by
  have hsteps : ∀ step ∈ places sizes, wrap step = step := fun step hstep =>
    wrap_of_lt (Nat.lt_of_le_of_lt (le_volume_of_mem_places hpos hstep) hword)
  rw [strides_eq_map_wrap, List.map_congr_left hsteps, List.map_id']

/-- Offsets do not wrap around where a word holds the volume. -/
theorem offset_eq_number (hcs : InRange cs sizes) (hword : volume sizes < UInt64.size) :
    offset cs (strides sizes) = number cs (places sizes) := by
  rw [offset_strides, wrap_of_lt (Nat.lt_trans (number_lt hcs) hword)]

/-- Coordinates are in the order of their numbers when they are compared from the first axis on. -/
theorem number_lt_number_iff (hcs : InRange cs sizes) (hds : InRange ds sizes) :
    number cs (places sizes) < number ds (places sizes) ↔ List.Lex (· < ·) cs ds := by
  induction hcs generalizing ds with
  | nil =>
      cases hds
      simp
  | cons _ hcs ih =>
      cases hds with
      | cons _ hds =>
          rw [List.cons_lex_cons_iff, ← ih hds]
          exact row_index_lt_row_index_iff (number_lt hcs) (number_lt hds)

/-- Where a word holds the volume, numbers below it and coordinates in range correspond to each other. A
number below the volume is used up by dividing by the sizes, none of which is zero; the remainders are
coordinates in range, and the number is the sum of their multiples of the strides, also when it is taken
in words. Coordinates in range have a number below the volume, which leads back to them. Their numbers
are in the order in which coordinates are compared from the first axis on. Multiplying the sizes finds
the volume and the strides, and no product wraps around, unless the volume is zero. -/
theorem coordinates_rowMajor (sizes : List Nat) (hword : volume sizes < UInt64.size) :
    (∀ index < volume sizes, 0 ∉ sizes ∧ ∃ coords,
      (remainders sizes index : Outcome EngineError (Nat × List Nat)) = .ok (0, coords) ∧
      (coordinates sizes index : Outcome EngineError (List Nat)) = .ok coords ∧
      InRange coords sizes ∧ number coords (strides sizes) = index ∧
      offset coords (strides sizes) = index) ∧
    (∀ coords, InRange coords sizes → offset coords (strides sizes) < volume sizes ∧
      number coords (strides sizes) = offset coords (strides sizes) ∧
      (coordinates sizes (offset coords (strides sizes)) : Outcome EngineError (List Nat)) =
        .ok coords) ∧
    (∀ cs ds, InRange cs sizes → InRange ds sizes →
      (offset cs (strides sizes) < offset ds (strides sizes) ↔ List.Lex (· < ·) cs ds)) ∧
    runningProducts sizes = (volume sizes, strides sizes) ∧
    (0 < volume sizes → strides sizes = places sizes ∧ ∀ step ∈ strides sizes, step ≤ volume sizes) := by
  have hstrides : ∀ {coords}, InRange coords sizes → strides sizes = places sizes :=
    fun hcoords => strides_eq_places (Nat.lt_of_le_of_lt (Nat.zero_le _) (number_lt hcoords)) hword
  refine ⟨?_, ?_, ?_, ?_, ?_⟩
  · intro index hindex
    have hzero := zero_notMem_of_lt_volume hindex
    have hremainders := remainders_eq_ok hindex
    have hrange := inRange_digits hzero index
    have hnumber : number (digits sizes index) (places sizes) = index := by
      rw [number_digits, Nat.mod_eq_of_lt hindex]
    refine ⟨hzero, digits sizes index, hremainders, ?_, hrange, ?_, ?_⟩
    · rw [coordinates_eq_map_remainders, hremainders]
      rfl
    · rw [hstrides hrange, hnumber]
    · rw [offset_eq_number hrange hword, hnumber]
  · intro coords hcoords
    have hlt := number_lt hcoords
    rw [offset_eq_number hcoords hword, hstrides hcoords]
    exact ⟨hlt, rfl, by rw [coordinates_eq_ok hlt, digits_number hcoords]⟩
  · intro cs ds hcs hds
    rw [offset_eq_number hcs hword, offset_eq_number hds hword]
    exact number_lt_number_iff hcs hds
  · rw [runningProducts_eq, wordVolume_eq_volume_iff.2 hword]
  · intro hpos
    have heq := strides_eq_places hpos hword
    exact ⟨heq, fun step hstep => le_volume_of_mem_places hpos (heq ▸ hstep)⟩

/-- An axis of size one, and two neighbouring numbers with a carry over it. -/
theorem coordinates_rowMajor_carry :
    volume [2, 1, 3, 4] < UInt64.size ∧ 17 < volume [2, 1, 3, 4] ∧
    InRange [0, 0, 2, 3] [2, 1, 3, 4] ∧ InRange [1, 0, 0, 0] [2, 1, 3, 4] ∧
    (coordinates [2, 1, 3, 4] 17 : Outcome EngineError (List Nat)) = .ok [1, 0, 1, 1] ∧
    offset [1, 0, 1, 1] (strides [2, 1, 3, 4]) = 17 ∧
    (coordinates [2, 1, 3, 4] (offset [0, 0, 2, 3] (strides [2, 1, 3, 4])) :
      Outcome EngineError (List Nat)) = .ok [0, 0, 2, 3] ∧
    offset [0, 0, 2, 3] (strides [2, 1, 3, 4]) < offset [1, 0, 0, 0] (strides [2, 1, 3, 4]) ∧
    ∀ step ∈ strides [2, 1, 3, 4], step ≤ 24 := by
  have hword : volume [2, 1, 3, 4] < UInt64.size := by decide
  have hlast : InRange [0, 0, 2, 3] [2, 1, 3, 4] := by decide
  have hfirst : InRange [1, 0, 0, 0] [2, 1, 3, 4] := by decide
  obtain ⟨hnumbers, hcoords, horder, -, hsteps⟩ := coordinates_rowMajor [2, 1, 3, 4] hword
  obtain ⟨-, coords, -, hcoordinates, -, -, hoffset⟩ := hnumbers 17 (by decide)
  obtain rfl : [1, 0, 1, 1] = coords := Except.ok.inj hcoordinates
  exact ⟨hword, by decide, hlast, hfirst, hcoordinates, hoffset, (hcoords _ hlast).2.2,
    (horder _ _ hlast hfirst).2 (by decide), (hsteps (by decide)).2⟩

end TensorLowering.Indexing
