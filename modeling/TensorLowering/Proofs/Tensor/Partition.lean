import TensorLowering.Proofs.Tensor.Entries

/-!
# Parts of an axis

An axis can be divided into parts that follow one another. A part has the entries of the whole from
where it starts; so the pieces are determined by the whole, and the whole by its pieces.

## Main statements

* `Tensor.Division.pieces_unique`, `Tensor.Division.whole_unique`: pieces and whole determine each
  other.
* `Tensor.exists_cut`: crops divide an axis.
-/

namespace TensorLowering

open Numeric Indexing

/-- A place on an axis is a place in one of the parts that the axis is divided into. -/
theorem exists_part {lengths : List Nat} {place : Nat} (h : place < lengths.sum) :
    ∃ k length inner, lengths[k]? = some length ∧ inner < length ∧
      place = (lengths.take k).sum + inner := by
  induction lengths generalizing place with
  | nil => cases h
  | cons length lengths ih =>
      rcases Nat.lt_or_ge place length with hlt | hge
      · exact ⟨0, length, place, rfl, hlt, by simp⟩
      · rw [List.sum_cons] at h
        have hbehind : place - length < lengths.sum := by omega
        obtain ⟨k, length', inner, hk, hinner, hplace⟩ := ih hbehind
        refine ⟨k + 1, length', inner, hk, hinner, ?_⟩
        rw [List.take_succ_cons, List.sum_cons]
        omega

/-- A part ends where the axis does, or earlier. -/
theorem part_le_sum {lengths : List Nat} {k length : Nat} (h : lengths[k]? = some length) :
    (lengths.take k).sum + length ≤ lengths.sum := by
  obtain ⟨hlt, rfl⟩ := List.getElem?_eq_some_iff.1 h
  calc
    (lengths.take k).sum + lengths[k] = (lengths.take (k + 1)).sum := by
      rw [List.take_succ_eq_append_getElem hlt, List.sum_append, List.sum_singleton]
    _ ≤ (lengths.take (k + 1)).sum + (lengths.drop (k + 1)).sum := Nat.le_add_right _ _
    _ = lengths.sum := List.sum_take_add_sum_drop _ _

namespace Indexing

variable {coords sizes : List Nat} {axis start inner length : Nat}

/-- A coordinate that is put at its place in a part comes back when it is shifted to the part. -/
theorem modify_set (h : coords[axis]? = some (start + inner)) :
    (coords.set axis inner).modify axis (· + start) = coords := by
  apply List.ext_getElem?
  intro i
  rw [List.getElem?_modify, List.getElem?_set]
  rcases eq_or_ne axis i with rfl | hne
  · have hlt : axis < coords.length := (List.getElem?_eq_some_iff.1 h).1
    rw [if_pos rfl, if_pos hlt, h]
    simp [Nat.add_comm]
  · simp [hne]

/-- Sizes with a smaller one on an axis have a smaller volume. -/
theorem volume_set_le {size : Nat} (hsize : sizes[axis]? = some size) (hle : length ≤ size) :
    volume (sizes.set axis length) ≤ volume sizes := by
  apply volume_mono
  apply forall₂_of_getElem? (List.length_set ..)
  intro i old size' hold hsize'
  rw [List.getElem?_set] at hold
  split at hold
  · next haxis =>
    subst haxis
    obtain rfl := Option.some.inj (hsize.symm.trans hsize')
    split at hold
    · exact Option.some.inj hold ▸ hle
    · cases hold
  · exact Nat.le_of_eq (Option.some.inj (hold.symm.trans hsize'))

theorem inRange_set (h : InRange coords sizes) (hinner : inner < length) :
    InRange (coords.set axis inner) (sizes.set axis length) := by
  induction h generalizing axis with
  | nil => exact .nil
  | cons hcoord hrest ih =>
      cases axis with
      | zero => exact .cons hinner hrest
      | succ axis => exact .cons hcoord ih

end Indexing

namespace Tensor

/-- A tensor is the part of another one that starts at a place on an axis. -/
structure PartOf (piece t : Tensor) (axis start length : Nat) : Prop where
  element_eq : piece.element = t.element
  sizes_eq : piece.sizes = t.sizes.set axis length
  entry_eq : ∀ coords, InRange coords piece.sizes →
    piece.scalar? coords = t.scalar? (coords.modify axis (· + start))

variable {t t' piece piece' : Tensor} {axis start length : Nat}

/-- A part of a well-formed tensor is well formed. -/
theorem PartOf.wellFormed {size : Nat} (h : piece.PartOf t axis start length) (ht : t.WellFormed)
    (hsize : t.sizes[axis]? = some size) (hle : length ≤ size) : piece.WellFormed := by
  rw [wellFormed_iff, h.sizes_eq]
  exact Nat.lt_of_le_of_lt (volume_set_le hsize hle) ht.volume_lt

/-- A part is determined by the whole and by where it lies. -/
theorem PartOf.unique (hpiece : piece.WellFormed) (h : piece.PartOf t axis start length)
    (h' : piece'.PartOf t axis start length) : piece = piece' := by
  have hsizes : piece.sizes = piece'.sizes := h.sizes_eq.trans h'.sizes_eq.symm
  refine ext_entries hpiece (h.element_eq.trans h'.element_eq.symm) hsizes fun coords hcoords => ?_
  rw [h.entry_eq coords hcoords, h'.entry_eq coords (hsizes ▸ hcoords)]

/-- The pieces are the parts of the given lengths, one behind the other, that an axis is divided
into. -/
structure Division (t : Tensor) (axis : Nat) (lengths : List Nat) (pieces : List Tensor) : Prop where
  size_eq : t.sizes[axis]? = some lengths.sum
  length_eq : pieces.length = lengths.length
  part : ∀ k length : Nat, lengths[k]? = some length →
    ∃ piece, pieces[k]? = some piece ∧ piece.PartOf t axis (lengths.take k).sum length

namespace Division

variable {lengths : List Nat} {pieces pieces' : List Tensor}

/-- The pieces of a well-formed tensor are well formed. -/
theorem wellFormed (h : t.Division axis lengths pieces) (ht : t.WellFormed) (hpiece : piece ∈ pieces) :
    piece.WellFormed := by
  obtain ⟨k, hk⟩ := List.mem_iff_getElem?.1 hpiece
  have hlt : k < lengths.length := h.length_eq ▸ (List.getElem?_eq_some_iff.1 hk).1
  have hlength := List.getElem?_eq_getElem hlt
  obtain ⟨piece', hpiece', hpart⟩ := h.part k _ hlength
  obtain rfl := Option.some.inj (hk.symm.trans hpiece')
  have hle := part_le_sum hlength
  exact hpart.wellFormed ht h.size_eq (by omega)

/-- The pieces are determined by the whole. -/
theorem pieces_unique (ht : t.WellFormed) (h : t.Division axis lengths pieces)
    (h' : t.Division axis lengths pieces') : pieces = pieces' := by
  apply List.ext_getElem?
  intro k
  rcases Nat.lt_or_ge k lengths.length with hlt | hge
  · obtain ⟨piece, hpiece, hpart⟩ := h.part k _ (List.getElem?_eq_getElem hlt)
    obtain ⟨piece', hpiece', hpart'⟩ := h'.part k _ (List.getElem?_eq_getElem hlt)
    rw [hpiece, hpiece', hpart.unique (h.wellFormed ht (List.mem_of_getElem? hpiece)) hpart']
  · rw [List.getElem?_eq_none (h.length_eq ▸ hge), List.getElem?_eq_none (h'.length_eq ▸ hge)]

/-- Wholes with a piece in common have the same type and sizes. -/
theorem sizes_unique (hne : lengths ≠ []) (h : t.Division axis lengths pieces)
    (h' : t'.Division axis lengths pieces) : t.element = t'.element ∧ t.sizes = t'.sizes := by
  obtain ⟨first, hfirst⟩ : ∃ first, lengths[0]? = some first :=
    ⟨_, List.getElem?_eq_getElem (List.length_pos_iff.2 hne)⟩
  obtain ⟨piece, hpiece, hpart⟩ := h.part 0 _ hfirst
  obtain ⟨piece', hpiece', hpart'⟩ := h'.part 0 _ hfirst
  obtain rfl := Option.some.inj (hpiece.symm.trans hpiece')
  refine ⟨hpart.element_eq.symm.trans hpart'.element_eq, ?_⟩
  have hback : ∀ {sizes : List Nat}, sizes[axis]? = some lengths.sum →
      sizes = (sizes.set axis first).set axis lengths.sum := by
    intro sizes hsize
    obtain ⟨hlt, hsum⟩ := List.getElem?_eq_some_iff.1 hsize
    rw [List.set_set, ← hsum, List.set_getElem_self]
  rw [hback h.size_eq, hback h'.size_eq, ← hpart.sizes_eq, ← hpart'.sizes_eq]

/-- The whole is determined by its pieces. -/
theorem whole_unique (ht : t.WellFormed) (hne : lengths ≠ []) (h : t.Division axis lengths pieces)
    (h' : t'.Division axis lengths pieces) : t = t' := by
  obtain ⟨helement, hsizes⟩ := h.sizes_unique hne h'
  refine ext_entries ht helement hsizes fun coords hcoords => ?_
  obtain ⟨place, hplace, hlt⟩ := exists_left_of_forall₂ hcoords h.size_eq
  obtain ⟨k, length, inner, hk, hinner, rfl⟩ := exists_part hlt
  obtain ⟨piece, hpiece, hpart⟩ := h.part k length hk
  obtain ⟨piece', hpiece', hpart'⟩ := h'.part k length hk
  obtain rfl := Option.some.inj (hpiece.symm.trans hpiece')
  have hrange : InRange (coords.set axis inner) piece.sizes := by
    rw [hpart.sizes_eq]
    exact inRange_set hcoords hinner
  rw [← modify_set hplace, ← hpart.entry_eq _ hrange, ← hpart'.entry_eq _ hrange]

end Division

/-- A crop that lies on the axis is a part of its operand. -/
theorem exists_crop (ht : t.WellFormed) {size : Nat} (hsize : t.sizes[axis]? = some size)
    (hpart : start + length ≤ size) (hword : start + length < UInt64.size) :
    ∃ piece, t.crop axis start length = .ok piece ∧ piece.PartOf t axis start length := by
  have hrange : ∀ coords, InRange coords (t.sizes.set axis length) →
      InRange (coords.modify axis (· + start)) t.sizes :=
    fun coords hcoords => inRange_modify hsize hpart hcoords
  have hvolume : volume (t.sizes.set axis length) < UInt64.size :=
    Nat.lt_of_le_of_lt (volume_set_le hsize (by omega)) ht.volume_lt
  have hplace : ∀ coords, InRange coords (t.sizes.set axis length) →
      offset (coords.modify axis (· + start)) (strides t.sizes) =
        number (coords.modify axis (· + start)) (places t.sizes) := by
    intro coords hcoords
    rw [offset_strides]
    exact wrap_of_lt (Nat.lt_trans (number_lt (hrange coords hcoords)) ht.volume_lt)
  obtain ⟨piece, hpiece, helement, hsizes, hread⟩ := t.exists_moved
    (fun coords => offset (coords.modify axis (· + start)) (strides t.sizes))
    (wordVolume_eq_volume_iff.2 hvolume) hvolume (by
      intro coords hcoords
      rw [hplace coords hcoords]
      exact ht.number_lt_count (hrange coords hcoords))
  refine ⟨piece, ?_, helement, hsizes, ?_⟩
  · have hfits : ¬ size < wrap (start + length) := by
      rw [wrap_of_lt hword]
      exact Nat.not_lt.2 hpart
    simp only [crop, hsize, if_neg hfits]
    exact hpiece
  · intro coords hcoords
    rw [hsizes] at hcoords
    rw [hread coords hcoords, hplace coords hcoords, scalar?_eq_getElem? (hrange coords hcoords)]

/-- Cuts an axis into parts of the given lengths, one behind the other. -/
def cut (t : Tensor) (axis : Nat) (lengths : List Nat) : Outcome EngineError (List Tensor) :=
  lengths.zipIdx.mapM fun (length, k) => t.crop axis (lengths.take k).sum length

/-- An axis can be cut into parts that cover it. -/
theorem exists_cut (ht : t.WellFormed) {lengths : List Nat}
    (haxis : t.sizes[axis]? = some lengths.sum) (hword : lengths.sum < UInt64.size) :
    ∃ pieces, t.cut axis lengths = .ok pieces ∧ t.Division axis lengths pieces := by
  have hcrop : ∀ k length : Nat, lengths[k]? = some length → ∃ piece,
      t.crop axis (lengths.take k).sum length = .ok piece ∧
        piece.PartOf t axis (lengths.take k).sum length :=
    fun k length hk => exists_crop ht haxis (part_le_sum hk)
      (Nat.lt_of_le_of_lt (part_le_sum hk) hword)
  have hcrops : ∀ part ∈ lengths.zipIdx,
      ∃ piece, t.crop axis (lengths.take part.2).sum part.1 = .ok piece := by
    rintro ⟨length, k⟩ hpart
    obtain ⟨piece, hpiece, -⟩ := hcrop k length (List.mem_zipIdx_iff_getElem?.1 hpart)
    exact ⟨piece, hpiece⟩
  obtain ⟨pieces, hpieces⟩ := Outcome.exists_mapM_eq_ok hcrops
  refine ⟨pieces, hpieces, haxis, ?_, ?_⟩
  · rw [← (Outcome.mapM_eq_ok_iff.1 hpieces).length_eq, List.length_zipIdx]
  · intro k length hk
    have hplace : lengths.zipIdx[k]? = some (length, k) := by simp [List.getElem?_zipIdx, hk]
    obtain ⟨piece, hpiece, hpart⟩ := hcrop k length hk
    obtain ⟨piece', hpiece', hcrop'⟩ := Outcome.getElem?_of_mapM_eq_ok hpieces hplace
    obtain rfl := Except.ok.inj (hpiece.symm.trans hcrop')
    exact ⟨piece, hpiece', hpart⟩

end Tensor

end TensorLowering
