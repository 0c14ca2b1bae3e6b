import Mathlib.Algebra.BigOperators.Group.List.Basic
import TensorLowering.Proofs.Tensor.Layout
import TensorLowering.Tensor.Reduction

/-!
# Coordinates in range

Coordinates below the sizes lead to a number below the volume. The kernels read at coordinates that
were broadcast, shifted or reduced; all of them stay in the range of what is read.

## Main statements

* `Indexing.number_lt`: coordinates in range have a number below the volume.
* `Indexing.exists_sourceOffset`: where a broadcast operand is read.
-/

namespace TensorLowering

theorem volume_eq_prod (sizes : List Nat) : volume sizes = sizes.prod := by
  induction sizes with
  | nil => rfl
  | cons size rest ih => rw [volume, List.prod_cons, ih]

/-- Larger sizes have a larger volume. -/
theorem volume_mono {sizes sizes' : List Nat} (h : List.Forall₂ (· ≤ ·) sizes sizes') :
    volume sizes ≤ volume sizes' := by
  induction h with
  | nil => exact Nat.le_refl 1
  | cons hsize _ ih => exact Nat.mul_le_mul hsize ih

namespace Indexing

/-- Every coordinate is below its size, and there is one for every axis. -/
def InRange (coords sizes : List Nat) : Prop := List.Forall₂ (· < ·) coords sizes

instance (coords sizes : List Nat) : Decidable (InRange coords sizes) :=
  inferInstanceAs (Decidable (List.Forall₂ _ _ _))

variable {coords sizes : List Nat}

/-- Coordinates in range have a number below the volume. -/
theorem number_lt (h : InRange coords sizes) : number coords (places sizes) < volume sizes := by
  induction h with
  | nil => exact Nat.one_pos
  | cons hcoord _ ih => exact row_index_lt hcoord ih

theorem InRange.reverse (h : InRange coords sizes) : InRange coords.reverse sizes.reverse :=
  List.rel_reverse h

theorem inRange_digits (h : 0 ∉ sizes) (index : Nat) : InRange (digits sizes index) sizes := by
  induction sizes with
  | nil => exact .nil
  | cons size rest ih =>
      obtain ⟨hsize, hrest⟩ := not_or.1 (mt List.mem_cons.2 h)
      exact .cons (Nat.mod_lt _ (Nat.pos_of_ne_zero (Ne.symm hsize))) (ih hrest)

/-- A number below the volume has coordinates, which are in range. -/
theorem exists_coordinates {index : Nat} (h : index < volume sizes) :
    ∃ coords, (coordinates sizes index : Outcome EngineError (List Nat)) = .ok coords ∧
      InRange coords sizes :=
  ⟨_, coordinates_eq_ok h, inRange_digits (zero_notMem_of_lt_volume h) index⟩

section Broadcast

variable {lhs rhs : List Nat}

theorem broadcastExtent_comm (l r : Nat) : broadcastExtent l r = broadcastExtent r l := by
  unfold broadcastExtent
  split_ifs <;> simp_all

theorem broadcastReversed_comm (ls rs : List Nat) :
    broadcastReversed ls rs = broadcastReversed rs ls := by
  induction ls generalizing rs with
  | nil => cases rs <;> rfl
  | cons l ls ih =>
      cases rs with
      | nil => rfl
      | cons r rs => rw [broadcastReversed, broadcastReversed, broadcastExtent_comm, ih]

theorem broadcastSizes_comm (lhs rhs : List Nat) : broadcastSizes lhs rhs = broadcastSizes rhs lhs := by
  rw [broadcastSizes, broadcastReversed_comm]
  rfl

/-- The coordinate that an axis is read at. -/
def projectAxis (coord size : Nat) : Nat := if size = 1 then 0 else coord

theorem project_reverse {cs ls : List Nat} (h : ls.length ≤ cs.length) :
    project cs.reverse ls.reverse = (List.zipWith projectAxis cs ls).reverse := by
  have hdrop : cs.reverse.length - ls.reverse.length = cs.length - ls.length := by simp
  have htake : (cs.take ls.length).length = ls.length := List.length_take_of_le h
  have hzip : List.zipWith projectAxis (cs.take ls.length) ls = List.zipWith projectAxis cs ls := by
    rw [@List.zipWith_eq_zipWith_take_min _ _ _ _ cs, Nat.min_eq_right h, List.take_length]
  calc
    project cs.reverse ls.reverse
        = List.zipWith projectAxis (cs.reverse.drop (cs.length - ls.length)) ls.reverse := by
          rw [project, hdrop]
          rfl
    _ = List.zipWith projectAxis (cs.take ls.length).reverse ls.reverse := by
          rw [List.drop_reverse, Nat.sub_sub_self h]
    _ = (List.zipWith projectAxis cs ls).reverse := by
          rw [← List.reverse_zipWith htake, hzip]

theorem projectAxis_lt {l r extent coord : Nat} (h : broadcastExtent l r = some extent)
    (hcoord : coord < extent) : projectAxis coord l < l := by
  rw [projectAxis]
  split
  · next hone =>
    rw [hone]
    exact Nat.one_pos
  · next hone =>
    unfold broadcastExtent at h
    split_ifs at h <;> simp_all

/-- Coordinates of the common sizes, from the last axis on, are in the range of an operand. -/
theorem inRange_zipWith {ls rs out cs : List Nat} (h : broadcastReversed ls rs = some out)
    (hcs : InRange cs out) :
    ls.length ≤ cs.length ∧ InRange (List.zipWith projectAxis cs ls) ls := by
  induction ls generalizing rs out cs with
  | nil => exact ⟨Nat.zero_le _, by rw [List.zipWith_nil_right]; exact .nil⟩
  | cons l ls ih =>
      cases rs with
      | nil =>
          obtain rfl : l :: ls = out := Option.some.inj h
          have hextent : broadcastExtent l l = some l := if_pos rfl
          have hrest : broadcastReversed ls [] = some ls := by cases ls <;> rfl
          cases hcs with
          | cons hcoord hcs =>
              obtain ⟨hlength, hrange⟩ := ih hrest hcs
              exact ⟨Nat.succ_le_succ hlength, .cons (projectAxis_lt hextent hcoord) hrange⟩
      | cons r rs =>
          obtain ⟨extent, hextent, h⟩ := Option.bind_eq_some_iff.1 h
          obtain ⟨rest, hrest, h⟩ := Option.bind_eq_some_iff.1 h
          obtain rfl := Option.some.inj h
          cases hcs with
          | cons hcoord hcs =>
              obtain ⟨hlength, hrange⟩ := ih hrest hcs
              exact ⟨Nat.succ_le_succ hlength, .cons (projectAxis_lt hextent hcoord) hrange⟩

/-- The coordinates that an operand of a broadcast is read at are in its range. -/
theorem inRange_project (h : broadcastSizes lhs rhs = some sizes) (hcoords : InRange coords sizes) :
    lhs.length ≤ coords.length ∧ InRange (project coords lhs) lhs := by
  obtain ⟨out, hout, rfl⟩ := Option.map_eq_some_iff.1 h
  have hreverse : InRange coords.reverse out := List.reverse_reverse out ▸ hcoords.reverse
  obtain ⟨hlength, hrange⟩ := inRange_zipWith hout hreverse
  have hproject := project_reverse hlength
  rw [List.reverse_reverse, List.reverse_reverse] at hproject
  have hback := hrange.reverse
  rw [← hproject, List.reverse_reverse] at hback
  rw [List.length_reverse, List.length_reverse] at hlength
  exact ⟨hlength, hback⟩

/-- An operand of a broadcast has a number at all coordinates of the common sizes, and its offset is
what a word keeps of it. -/
theorem exists_sourceOffset (h : broadcastSizes lhs rhs = some sizes)
    (hcoords : InRange coords sizes) :
    ∃ k, (sourceOffset coords lhs : Outcome EngineError Nat) = .ok (wrap k) ∧ k < volume lhs := by
  obtain ⟨hlength, hrange⟩ := inRange_project h hcoords
  refine ⟨_, ?_, number_lt hrange⟩
  rw [sourceOffset, if_neg (Nat.not_lt.2 hlength), offset_strides]

end Broadcast

/-- Coordinates of a part of an axis are in range once they are shifted to the part. -/
theorem inRange_modify {axis start length size : Nat} (hsize : sizes[axis]? = some size)
    (hpart : start + length ≤ size) (hcoords : InRange coords (sizes.set axis length)) :
    InRange (coords.modify axis (· + start)) sizes := by
  apply forall₂_of_getElem?
  · rw [List.length_modify, hcoords.length_eq, List.length_set]
  · intro i coord size' hcoord hsize'
    rw [List.getElem?_modify] at hcoord
    obtain ⟨old, hold, rfl⟩ := Option.map_eq_some_iff.1 hcoord
    obtain ⟨bound, hbound, hlt⟩ := exists_right_of_forall₂ hcoords hold
    by_cases haxis : axis = i
    · subst haxis
      obtain rfl := Option.some.inj (hsize.symm.trans hsize')
      have hlength : axis < sizes.length := (List.getElem?_eq_some_iff.1 hsize).1
      rw [List.getElem?_set_self hlength] at hbound
      obtain rfl := Option.some.inj hbound
      rw [if_pos rfl]
      omega
    · rw [List.getElem?_set_ne haxis, hsize'] at hbound
      obtain rfl := Option.some.inj hbound
      rw [if_neg haxis]
      exact hlt

/-- Coordinates with some axes at zero are in the range of the sizes with these axes at one. -/
theorem inRange_keptCoordinates (axes : List Nat) (hcoords : InRange coords sizes) :
    InRange (Tensor.keptCoordinates axes coords) (Tensor.keptSizes axes sizes) := by
  apply forall₂_of_getElem?
  · simp [Tensor.keptCoordinates, Tensor.keptSizes, hcoords.length_eq]
  · intro i coord size hcoord hsize
    simp only [Tensor.keptCoordinates, Tensor.keptSizes, List.getElem?_map, List.getElem?_zipIdx,
      Option.map_map, Option.map_eq_some_iff, Function.comp_apply, Nat.zero_add] at hcoord hsize
    obtain ⟨old, hold, rfl⟩ := hcoord
    obtain ⟨bound, hbound, rfl⟩ := hsize
    obtain ⟨bound', hbound', hlt⟩ := exists_right_of_forall₂ hcoords hold
    obtain rfl := Option.some.inj (hbound.symm.trans hbound')
    split
    · exact Nat.one_pos
    · exact hlt

/-- Sizes other than zero do not grow when some of them become one. -/
theorem volume_keptSizes_le (axes : List Nat) (h : 0 ∉ sizes) :
    volume (Tensor.keptSizes axes sizes) ≤ volume sizes := by
  apply volume_mono
  apply forall₂_of_getElem?
  · simp [Tensor.keptSizes]
  · intro i kept size hkept hsize
    simp only [Tensor.keptSizes, List.getElem?_map, List.getElem?_zipIdx, hsize, Option.map_some,
      Option.some.injEq, Nat.zero_add] at hkept
    subst hkept
    split
    · exact Nat.pos_of_ne_zero fun hzero => h (hzero ▸ List.mem_of_getElem? hsize)
    · exact Nat.le_refl size

end Indexing

end TensorLowering
