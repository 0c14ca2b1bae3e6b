import Mathlib.Algebra.BigOperators.Ring.List
import TensorLowering.Proofs.Tensor.Partition

/-!
# Joined tensors

Tensors that agree on all axes but one can be joined along it. Their elements are laid out chunk by
chunk: for every place in front of the axis, what each of them has there. The tensors are the pieces
of the result, so cutting an axis and joining along it are inverse to each other. Tensors without
elements can have more places on the axis than a word counts; they can be joined too, but they are no
pieces of the result.

## Main statements

* `Tensor.getElem?_joined`: where the elements of a part stand among the joined ones.
* `Tensor.exists_concat`: the operands of a concatenation are the pieces of the result.
* `Tensor.concat_cut_inverse`: joining undoes cutting, and cutting undoes joining.
* `Tensor.not_concat_cut_halves`: two tensors that are not cut out of the result.
-/

namespace TensorLowering

open Numeric Indexing

/-- Lengths that are all multiplied add up to the multiplied sum. -/
theorem sum_map_mul (lengths : List Nat) (m : Nat) : (lengths.map (· * m)).sum = lengths.sum * m := by
  rw [List.sum_map_mul_right lengths (fun n => n), List.map_id']

namespace Indexing

variable {axis : Nat}

section Axis

variable {α : Type} {front : List α} (h : front.length = axis) (x : α) (back : List α)
include h

theorem getElem?_axis : (front ++ x :: back)[axis]? = some x := by
  rw [← h, List.getElem?_append_right (Nat.le_refl _), Nat.sub_self, List.getElem?_cons_zero]

theorem set_axis (y : α) : (front ++ x :: back).set axis y = front ++ y :: back := by
  rw [← h, List.set_append_right _ _ (Nat.le_refl _), Nat.sub_self, List.set_cons_zero]

theorem modify_axis (f : α → α) : (front ++ x :: back).modify axis f = front ++ f x :: back := by
  subst h
  induction front with
  | nil => rfl
  | cons y front ih => exact congrArg (y :: ·) ih

end Axis

/-- Coordinates in range in front of an axis, on it and behind it. -/
theorem exists_axis {coords front back : List Nat} {n : Nat} (h : InRange coords (front ++ n :: back)) :
    ∃ cs c ds, coords = cs ++ c :: ds ∧ InRange cs front ∧ c < n ∧ InRange ds back := by
  induction front generalizing coords with
  | nil =>
      cases h with
      | cons hc hds => exact ⟨[], _, _, rfl, .nil, hc, hds⟩
  | cons size front ih =>
      cases h with
      | @cons coord _ coords _ hcoord h =>
          obtain ⟨cs, c, ds, rfl, hcs, hc, hds⟩ := ih h
          exact ⟨coord :: cs, c, ds, rfl, .cons hcoord hcs, hc, hds⟩

end Indexing

namespace Tensor

section Joined

variable {α : Type} {outer o k chunk r : Nat} {xs : List α} {parts : List (List α × Nat)}

/-- The chunk of each part for an outer number. -/
def chunksAt (parts : List (List α × Nat)) (o : Nat) : List (List α) :=
  parts.map fun part => (part.1.drop (o * part.2)).take part.2

/-- The chunks of all parts for every outer number in turn. -/
def joined (outer : Nat) (parts : List (List α × Nat)) : List α :=
  ((List.range outer).map fun o => (chunksAt parts o).flatten).flatten

theorem map_joined {β : Type} (f : α → β) (outer : Nat) (parts : List (List α × Nat)) :
    (joined outer parts).map f = joined outer (parts.map fun part => (part.1.map f, part.2)) := by
  simp [joined, chunksAt, List.map_flatten, Function.comp_def, List.map_drop, List.map_take]

/-- An outer number that does not fit in a word does no harm: then all chunks are empty. -/
theorem joined_wrap (h : ∀ part ∈ parts, part.1.length = outer * part.2)
    (hword : ∀ part ∈ parts, part.1.length < UInt64.size) :
    joined (wrap outer) parts = joined outer parts := by
  rcases Nat.lt_or_ge outer UInt64.size with houter | houter
  · rw [wrap_of_lt houter]
  · have hzero : ∀ part ∈ parts, part.2 = 0 := by
      intro part hpart
      have hlt : outer * part.2 < outer * 1 := by
        rw [← h part hpart, Nat.mul_one]
        exact Nat.lt_of_lt_of_le (hword part hpart) houter
      exact Nat.lt_one_iff.1 (Nat.lt_of_mul_lt_mul_left hlt)
    have hnil : ∀ o, (chunksAt parts o).flatten = [] := by
      intro o
      rw [List.flatten_eq_nil_iff, chunksAt]
      refine List.forall_mem_map.2 fun part hpart => ?_
      rw [hzero part hpart, List.take_zero]
    simp [joined, hnil]

/-- A part has all of its chunks, and words hold where they start and end. -/
theorem slice_eq_ok {values : Array α} (h : values.size = outer * chunk)
    (hword : values.size < UInt64.size) (ho : o < wrap outer) :
    slice values (wrap (o * wrap chunk)) (wrap ((o + 1) * wrap chunk)) =
      .ok ((values.toList.drop (o * chunk)).take chunk) := by
  have hlast : (o + 1) * chunk ≤ values.size :=
    h ▸ Nat.mul_le_mul_right chunk (Nat.lt_of_lt_of_le ho (wrap_le outer))
  have hfirst : o * chunk ≤ (o + 1) * chunk := Nat.mul_le_mul_right chunk (Nat.le_succ o)
  rw [wrap_mul_wrap, wrap_mul_wrap, wrap_of_lt (Nat.lt_of_le_of_lt hlast hword),
    wrap_of_lt (Nat.lt_of_le_of_lt (Nat.le_trans hfirst hlast) hword), slice, if_pos ⟨hfirst, hlast⟩,
    Array.toList_extract, List.extract_eq_take_drop, Nat.add_one_mul, Nat.add_sub_cancel_left]

/-- Chunks can be joined when every part has all of its chunks. -/
theorem joinChunks_eq_ok {β : Type} {xs : List β} {values : β → Array α} {chunk : β → Nat}
    (h : ∀ x ∈ xs, (values x).size = outer * chunk x)
    (hword : ∀ x ∈ xs, (values x).size < UInt64.size) :
    joinChunks (wrap outer) (xs.map fun x => (values x, wrap (chunk x))) =
      .ok (joined outer (xs.map fun x => ((values x).toList, chunk x))).toArray := by
  have hslices : ∀ o ∈ List.range (wrap outer), ((xs.map fun x => (values x, wrap (chunk x))).mapM
      fun part => slice part.1 (wrap (o * part.2)) (wrap ((o + 1) * part.2))) =
        .ok (chunksAt (xs.map fun x => ((values x).toList, chunk x)) o) := by
    intro o ho
    rw [chunksAt, List.map_map, Outcome.mapM_eq_ok_iff, List.forall₂_map_left_iff,
      List.forall₂_map_right_iff, List.forall₂_same]
    exact fun x hx => slice_eq_ok (h x hx) (hword x hx) (List.mem_range.1 ho)
  rw [joinChunks, Outcome.mapM_eq_ok_map hslices]
  refine (congrArg (fun pieces => Except.ok (List.flatten pieces).toArray) (List.map_map ..)).trans ?_
  refine congrArg (fun values => Except.ok (List.toArray values)) (joined_wrap ?_ ?_)
  · exact List.forall_mem_map.2 h
  · exact List.forall_mem_map.2 hword

variable (h : ∀ part ∈ parts, part.1.length = outer * part.2)
include h

theorem map_length_chunksAt (ho : o < outer) :
    (chunksAt parts o).map List.length = parts.map Prod.snd := by
  rw [chunksAt, List.map_map]
  apply List.map_congr_left
  rintro ⟨xs, chunk⟩ hpart
  have hlength : xs.length = outer * chunk := h _ hpart
  have hchunk : (o + 1) * chunk ≤ xs.length := hlength ▸ Nat.mul_le_mul_right chunk ho
  rw [Nat.add_one_mul] at hchunk
  simp only [Function.comp_apply, List.length_take, List.length_drop]
  omega

theorem length_row {block : List α}
    (hblock : block ∈ (List.range outer).map fun o => (chunksAt parts o).flatten) :
    block.length = (parts.map Prod.snd).sum := by
  obtain ⟨o, ho, rfl⟩ := List.mem_map.1 hblock
  rw [List.length_flatten, map_length_chunksAt h (List.mem_range.1 ho)]

theorem length_joined : (joined outer parts).length = outer * (parts.map Prod.snd).sum := by
  rw [joined, length_flatten_uniform fun block hblock => length_row h hblock, List.length_map,
    List.length_range]

/-- What stands in a chunk of a part stands behind the chunks of the parts in front of it. -/
theorem getElem?_joined (ho : o < outer) (hk : parts[k]? = some (xs, chunk)) (hr : r < chunk) :
    (joined outer parts)[o * (parts.map Prod.snd).sum + (((parts.take k).map Prod.snd).sum + r)]? =
      xs[o * chunk + r]? := by
  have hlengths := map_length_chunksAt h ho
  have hchunk : (chunksAt parts o)[k]? = some ((xs.drop (o * chunk)).take chunk) := by
    rw [chunksAt, List.getElem?_map, hk]
    rfl
  have hlength : ((xs.drop (o * chunk)).take chunk).length = chunk := by
    have hread := congrArg (·[k]?) hlengths
    simp only [List.getElem?_map, hchunk, hk, Option.map_some] at hread
    exact Option.some.inj hread
  have htake : (((chunksAt parts o).take k).map List.length) = (parts.take k).map Prod.snd := by
    rw [List.map_take, hlengths, List.map_take]
  have hrow := getElem?_flatten_block hchunk (hlength.symm ▸ hr)
  rw [htake, List.getElem?_take_of_lt hr, List.getElem?_drop] at hrow
  have hinner : ((parts.take k).map Prod.snd).sum + r < (parts.map Prod.snd).sum := by
    have hsize : (parts.map Prod.snd)[k]? = some chunk := by
      rw [List.getElem?_map, hk]
      rfl
    have hle := part_le_sum hsize
    rw [← List.map_take] at hle
    omega
  rw [joined, getElem?_flatten_uniform (fun block hblock => length_row h hblock) _ hinner]
  · exact hrow
  · rw [List.getElem?_map, List.getElem?_range ho]
    rfl

end Joined

section Concat

/-- The sizes that tensors have on an axis. -/
def extents (axis : Nat) (pieces : List Tensor) : List Nat := pieces.map (·.sizes.getD axis 0)

/-- Well-formed tensors of one element type and one rank that agree on all axes but one. -/
structure Joinable (axis : Nat) (pieces : List Tensor) : Prop where
  ne_nil : pieces ≠ []
  wellFormed : ∀ t ∈ pieces, t.WellFormed
  axis_lt : ∀ t ∈ pieces, axis < t.rank
  element_eq : ∀ t ∈ pieces, ∀ t' ∈ pieces, t.element = t'.element
  rank_eq : ∀ t ∈ pieces, ∀ t' ∈ pieces, t.rank = t'.rank
  size_eq : ∀ t ∈ pieces, ∀ t' ∈ pieces, ∀ i, i ≠ axis → t.sizes[i]? = t'.sizes[i]?

variable {t t' : Tensor} {axis : Nat} {pieces : List Tensor}

/-- Sizes that agree on all axes but one are told apart by the size on it. -/
theorem sizes_eq_set (hrank : t.rank = t'.rank)
    (hsize : ∀ i, i ≠ axis → t.sizes[i]? = t'.sizes[i]?) :
    t.sizes = t'.sizes.set axis (t.sizes.getD axis 0) := by
  apply List.ext_getElem?
  intro i
  rw [List.getElem?_set]
  rcases eq_or_ne axis i with rfl | hne
  · rw [if_pos rfl]
    split
    · next hlt =>
      have hlt' : axis < t.sizes.length := Nat.lt_of_lt_of_eq hlt hrank.symm
      rw [List.getD_eq_getElem?_getD, List.getElem?_eq_getElem hlt', Option.getD_some]
    · next hge =>
      have hge' : t.sizes.length ≤ axis := Nat.le_trans (Nat.le_of_eq hrank) (Nat.not_lt.1 hge)
      exact List.getElem?_eq_none hge'
  · rw [if_neg hne, hsize i hne.symm]

/-- The elements of joined tensors are those of the tensors, chunk by chunk. The element types differ
in how their elements are viewed. -/
theorem exists_joined {α : Type} {view : Elements → Option (Array α)} (make : Array α → Elements)
    (scalar : α → Scalar) {type : ElementType} {outer : Nat} {chunk : Tensor → Nat}
    (hview : ∀ elements : Elements, elements.element = type →
      ∃ values, view elements = some values ∧ elements = make values)
    (hmake : ∀ values, (make values).element = type ∧ (make values).toList = values.toList.map scalar)
    (htype : ∀ t ∈ pieces, t.element = type) (hcount : ∀ t ∈ pieces, t.count = outer * chunk t)
    (hword : ∀ t ∈ pieces, t.count < UInt64.size) (sizes : List Nat) :
    ∃ elements : Elements,
      elements.toList = joined outer (pieces.map fun t => (t.elements.toList, chunk t)) ∧
      (∀ t ∈ pieces, t.element = elements.element) ∧ (do
        let parts ← partsOf view pieces
        let values ← joinChunks (wrap outer) (parts.zip (pieces.map fun t => wrap (chunk t)))
        new sizes (make values)) = new sizes elements := by
  let raw : Tensor → Array α := fun t => (view t.elements).getD #[]
  have hraw : ∀ t ∈ pieces, view t.elements = some (raw t) ∧ t.elements = make (raw t) := by
    intro t ht
    obtain ⟨values, hvalues, hmade⟩ := hview t.elements (htype t ht)
    have hread : raw t = values := by simp only [raw, hvalues, Option.getD_some]
    rw [hread]
    exact ⟨hvalues, hmade⟩
  have hparts : partsOf view pieces = .ok (pieces.map raw) :=
    Outcome.mapM_eq_ok_map fun t ht => Outcome.ofOptionOr_eq_ok_iff.2 (hraw t ht).1
  have hsize : ∀ t ∈ pieces, (raw t).size = t.count := by
    intro t ht
    rw [count, ← Elements.length_toList, (hraw t ht).2, (hmake _).2]
    simp
  have hjoin : joinChunks (wrap outer) ((pieces.map raw).zip (pieces.map fun t => wrap (chunk t))) =
      .ok (joined outer (pieces.map fun t => ((raw t).toList, chunk t))).toArray := by
    rw [List.zip_map']
    exact joinChunks_eq_ok (fun t ht => (hsize t ht).trans (hcount t ht))
      fun t ht => (hsize t ht).symm ▸ hword t ht
  refine ⟨make (joined outer (pieces.map fun t => ((raw t).toList, chunk t))).toArray, ?_,
    fun t ht => (htype t ht).trans (hmake _).1.symm, ?_⟩
  · rw [(hmake _).2, map_joined, List.map_map]
    apply congrArg
    apply List.map_congr_left
    intro t ht
    rw [(hraw t ht).2, (hmake _).2]
    rfl
  · rw [hparts]
    exact congrArg (· >>= fun values => new sizes (make values)) hjoin

/-- Well-formed tensors with the same sizes in front of an axis and behind it. -/
structure Framed (axis : Nat) (front back : List Nat) (pieces : List Tensor) : Prop where
  length_eq : front.length = axis
  wellFormed : ∀ t ∈ pieces, t.WellFormed
  sizes_eq : ∀ t ∈ pieces, t.sizes = front ++ t.sizes.getD axis 0 :: back

theorem Joinable.exists_framed (h : Joinable axis pieces) :
    ∃ front back, Framed axis front back pieces := by
  obtain ⟨first, hfirst⟩ := List.exists_mem_of_ne_nil _ h.ne_nil
  have hlength : (first.sizes.take axis).length = axis :=
    List.length_take_of_le (Nat.le_of_lt (h.axis_lt first hfirst))
  refine ⟨first.sizes.take axis, first.sizes.drop (axis + 1), hlength, h.wellFormed, fun t ht => ?_⟩
  calc
    t.sizes = first.sizes.set axis (t.sizes.getD axis 0) :=
      sizes_eq_set (h.rank_eq t ht first hfirst) (h.size_eq t ht first hfirst)
    _ = first.sizes.take axis ++ t.sizes.getD axis 0 :: first.sizes.drop (axis + 1) :=
      List.set_eq_take_cons_drop _ (h.axis_lt first hfirst)

/-- The elements of each tensor, and how many of them stand side by side: those of one outer number. -/
def slabs (axis : Nat) (back : List Nat) (pieces : List Tensor) : List (List Scalar × Nat) :=
  pieces.map fun t => (t.elements.toList, t.sizes.getD axis 0 * volume back)

theorem map_snd_slabs (axis : Nat) (back : List Nat) (pieces : List Tensor) :
    (slabs axis back pieces).map Prod.snd = (extents axis pieces).map (· * volume back) := by
  rw [slabs, extents, List.map_map, List.map_map]
  rfl

namespace Framed

variable {front back : List Nat} (h : Framed axis front back pieces) (ht : t ∈ pieces)
  (ht' : t' ∈ pieces)
include h

section Sizes

include ht

theorem take_eq : t.sizes.take axis = front := by
  rw [h.sizes_eq t ht, ← h.length_eq, List.take_left]

theorem set_eq (n : Nat) : t.sizes.set axis n = front ++ n :: back := by
  rw [h.sizes_eq t ht, set_axis h.length_eq]

theorem getElem?_eq : t.sizes[axis]? = some (t.sizes.getD axis 0) := by
  have hread := getElem?_axis h.length_eq (t.sizes.getD axis 0) back
  rwa [← h.sizes_eq t ht] at hread

theorem volume_drop_eq : volume (t.sizes.drop axis) = t.sizes.getD axis 0 * volume back := by
  conv_lhs => rw [h.sizes_eq t ht, ← h.length_eq, List.drop_left, volume, h.length_eq]

theorem count_eq : t.count = volume front * (t.sizes.getD axis 0 * volume back) := by
  rw [count, ← h.wellFormed t ht]
  conv_lhs => rw [h.sizes_eq t ht, volume_append, volume]

include ht' in
theorem agreeExcept_eq : agreeExcept axis t.sizes t'.sizes = true := by
  rw [h.sizes_eq t ht, h.sizes_eq t' ht']
  simp [agreeExcept, ← h.length_eq, List.eraseIdx_append_of_length_le]

end Sizes

/-- The joined sizes stand for as many elements as the tensors have together. -/
theorem volume_joined :
    volume (front ++ (extents axis pieces).sum :: back) = (pieces.map Tensor.count).sum := by
  have hcounts : pieces.map Tensor.count =
      ((extents axis pieces).map (· * volume back)).map (volume front * ·) := by
    rw [extents, List.map_map, List.map_map]
    exact List.map_congr_left fun t ht => h.count_eq ht
  rw [hcounts, List.sum_map_mul_left, List.map_id', sum_map_mul, volume_append, volume]

theorem length_of_mem_slabs (part : List Scalar × Nat) (hpart : part ∈ slabs axis back pieces) :
    part.1.length = volume front * part.2 := by
  obtain ⟨t, ht, rfl⟩ := List.mem_map.1 hpart
  rw [Elements.length_toList]
  exact h.count_eq ht

/-- An entry of a tensor stands among the joined elements at the number of its shifted coordinates. -/
theorem scalar?_eq {k : Nat} {piece : Tensor} {coords : List Nat} (hk : pieces[k]? = some piece)
    (hcoords : InRange coords piece.sizes) :
    piece.scalar? coords = (joined (volume front) (slabs axis back pieces))[
      number (coords.modify axis (· + ((extents axis pieces).take k).sum))
        (places (front ++ (extents axis pieces).sum :: back))]? := by
  have hpiece := h.sizes_eq piece (List.mem_of_getElem? hk)
  have hsplit := hcoords
  rw [hpiece] at hsplit
  obtain ⟨cs, c, ds, rfl, hcs, hc, hds⟩ := exists_axis hsplit
  have hcut : cs.length = axis := hcs.length_eq.trans h.length_eq
  have hpart : (slabs axis back pieces)[k]? =
      some (piece.elements.toList, piece.sizes.getD axis 0 * volume back) := by
    rw [slabs, List.getElem?_map, hk]
    rfl
  -- the coordinates in front of the axis number the row of chunks, the others the place in the chunk
  have hread := getElem?_joined h.length_of_mem_slabs (number_lt hcs) hpart
    (row_index_lt hc (number_lt hds))
  rw [List.map_take, map_snd_slabs, ← List.map_take, sum_map_mul, sum_map_mul] at hread
  calc
    piece.scalar? (cs ++ c :: ds)
        = piece.elements.toList[number (cs ++ c :: ds) (places piece.sizes)]? :=
          scalar?_eq_getElem? hcoords
    _ = piece.elements.toList[number cs (places front) * (piece.sizes.getD axis 0 * volume back) +
          (c * volume back + number ds (places back))]? := by
          conv_lhs => rw [hpiece, number_places_append hcs.length_eq]
          rfl
    _ = _ := hread.symm
    _ = _ := by
          rw [modify_axis hcut, number_places_append hcs.length_eq, places, number, volume,
            Nat.add_mul]
          congr 2
          omega

end Framed

/-- A concatenation holds the joined elements, with the sum of the sizes on the axis as far as a word
holds it. -/
theorem exists_concat_eq_new {front back : List Nat} (h : Joinable axis pieces)
    (hframed : Framed axis front back pieces) :
    ∃ elements : Elements,
      elements.toList = joined (volume front) (slabs axis back pieces) ∧
      (∀ t ∈ pieces, t.element = elements.element) ∧
      concat pieces axis = new (front ++ wrap (extents axis pieces).sum :: back) elements := by
  obtain ⟨first, hhead⟩ : ∃ first, pieces.head? = some first :=
    Option.isSome_iff_exists.1 (List.isSome_head?.2 h.ne_nil)
  have hfirst : first ∈ pieces := List.mem_of_mem_head? hhead
  have hrank : ¬ first.rank ≤ axis := Nat.not_le.2 (h.axis_lt first hfirst)
  have hagree : (pieces.forM fun t =>
      if agreeExcept axis t.sizes first.sizes then pure ()
      else failExecution (.concatenateShapes t.sizes first.sizes axis)) = .ok () := by
    rw [Outcome.forM_eq_ok_iff]
    intro t ht
    exact if_pos (hframed.agreeExcept_eq ht hfirst)
  have hextents : pieces.mapM (·.sizes[axis]?) = some (extents axis pieces) := by
    rw [Outcome.mapM_eq_some_iff, extents, List.forall₂_map_right_iff, List.forall₂_same]
    exact fun t ht => hframed.getElem?_eq ht
  have hchunks : (pieces.map fun t => wordVolume (t.sizes.drop axis)) =
      pieces.map fun t => wrap (t.sizes.getD axis 0 * volume back) :=
    List.map_congr_left fun t ht => by rw [wordVolume_eq, hframed.volume_drop_eq ht]
  have hset : first.sizes.set axis (wrap ((extents axis pieces).foldr (· + ·) 0)) =
      front ++ wrap (extents axis pieces).sum :: back := hframed.set_eq hfirst _
  have hword : ∀ t ∈ pieces, t.count < UInt64.size := by
    intro t ht
    rw [count, ← h.wellFormed t ht]
    exact (h.wellFormed t ht).volume_lt
  have htype : ∀ t ∈ pieces, t.element = first.element := fun t ht => h.element_eq t ht first hfirst
  simp only [concat, hhead, if_neg hrank, hagree, hextents, hframed.take_eq hfirst,
    wordVolume_eq front, hchunks, ← hset]
  -- the three element types differ in the view of the elements only
  cases helements : first.elements with
  | f32 values =>
      have hfirst : first.element = .f32 := congrArg Elements.element helements
      refine exists_joined .f32 .f32 ?_ (fun _ => ⟨rfl, rfl⟩)
        (fun t ht => (htype t ht).trans hfirst) (fun t ht => hframed.count_eq ht) hword _
      rintro (values | values | values) hvalues <;> cases hvalues
      exact ⟨values, rfl, rfl⟩
  | i32 values =>
      have hfirst : first.element = .i32 := congrArg Elements.element helements
      refine exists_joined .i32 .i32 ?_ (fun _ => ⟨rfl, rfl⟩)
        (fun t ht => (htype t ht).trans hfirst) (fun t ht => hframed.count_eq ht) hword _
      rintro (values | values | values) hvalues <;> cases hvalues
      exact ⟨values, rfl, rfl⟩
  | i64 values =>
      have hfirst : first.element = .i64 := congrArg Elements.element helements
      refine exists_joined .i64 .i64 ?_ (fun _ => ⟨rfl, rfl⟩)
        (fun t ht => (htype t ht).trans hfirst) (fun t ht => hframed.count_eq ht) hword _
      rintro (values | values | values) hvalues <;> cases hvalues
      exact ⟨values, rfl, rfl⟩

/-- Joinable tensors can be joined when a word holds the number of all of their elements. The size on the
axis is what a word keeps of the sum. -/
theorem exists_concat_of_counts (h : Joinable axis pieces) {front back : List Nat}
    (hframed : Framed axis front back pieces)
    (hcounts : (pieces.map Tensor.count).sum < UInt64.size) :
    ∃ t, concat pieces axis = .ok t ∧ t.sizes = front ++ wrap (extents axis pieces).sum :: back ∧
      t.elements.toList = joined (volume front) (slabs axis back pieces) ∧
      ∀ piece ∈ pieces, piece.element = t.element := by
  obtain ⟨elements, hlist, helement, hconcat⟩ := exists_concat_eq_new h hframed
  have hsize : elements.size = (pieces.map Tensor.count).sum := by
    rw [← Elements.length_toList, hlist, length_joined hframed.length_of_mem_slabs, map_snd_slabs,
      sum_map_mul, ← hframed.volume_joined, volume_append, volume]
  have hcount : wordVolume (front ++ wrap (extents axis pieces).sum :: back) = elements.size := by
    calc
      wordVolume (front ++ wrap (extents axis pieces).sum :: back)
          = wrap (volume front * volume back * wrap (extents axis pieces).sum) := by
            rw [wordVolume_eq, volume_append, volume, Nat.mul_comm (wrap _), Nat.mul_assoc]
      _ = wrap (pieces.map Tensor.count).sum := by
            rw [wrap_mul_wrap, ← hframed.volume_joined, volume_append, volume,
              Nat.mul_comm (extents axis pieces).sum, Nat.mul_assoc]
      _ = elements.size := by rw [wrap_of_lt hcounts, hsize]
  exact ⟨⟨_, elements, hcount⟩, hconcat.trans (new_eq_ok_iff.2 ⟨rfl, rfl⟩), rfl, hlist, helement⟩

/-- Joinable tensors are the pieces of the result when words hold the sum of their sizes and the number
of all of their elements. -/
theorem exists_concat (h : Joinable axis pieces) (hsum : (extents axis pieces).sum < UInt64.size)
    (hcounts : (pieces.map Tensor.count).sum < UInt64.size) :
    ∃ t, concat pieces axis = .ok t ∧ t.WellFormed ∧ t.Division axis (extents axis pieces) pieces := by
  obtain ⟨front, back, hframed⟩ := h.exists_framed
  obtain ⟨t, hconcat, hsizes, hlist, helement⟩ := exists_concat_of_counts h hframed hcounts
  rw [wrap_of_lt hsum] at hsizes
  have haxis : t.sizes[axis]? = some (extents axis pieces).sum := by
    rw [hsizes]
    exact getElem?_axis hframed.length_eq _ back
  refine ⟨t, hconcat, ?_, haxis, (List.length_map _).symm, ?_⟩
  · rw [wellFormed_iff, hsizes, hframed.volume_joined]
    exact hcounts
  · intro k length hextent
    obtain ⟨piece, hk, rfl⟩ := Option.map_eq_some_iff.1 (List.getElem?_map.symm.trans hextent)
    have hpiece : piece ∈ pieces := List.mem_of_getElem? hk
    have hset : piece.sizes = t.sizes.set axis (piece.sizes.getD axis 0) := by
      rw [hsizes, set_axis hframed.length_eq]
      exact hframed.sizes_eq piece hpiece
    refine ⟨piece, hk, helement piece hpiece, hset, fun coords hcoords => ?_⟩
    have hrange : InRange (coords.modify axis (· + ((extents axis pieces).take k).sum)) t.sizes :=
      inRange_modify haxis (part_le_sum hextent) (hset ▸ hcoords)
    rw [hframed.scalar?_eq hk hcoords, scalar?_eq_getElem? hrange, hlist, hsizes]

namespace Division

variable {lengths : List Nat} (h : t.Division axis lengths pieces)
include h

/-- The pieces have the lengths that the axis is divided into. -/
theorem extents_eq : extents axis pieces = lengths := by
  have haxis : axis < t.sizes.length := (List.getElem?_eq_some_iff.1 h.size_eq).1
  apply List.ext_getElem
  · rw [extents, List.length_map, h.length_eq]
  · intro k hk hk'
    obtain ⟨piece, hpiece, hpart⟩ := h.part k _ (List.getElem?_eq_getElem hk')
    obtain ⟨hlt, rfl⟩ := List.getElem?_eq_some_iff.1 hpiece
    simp only [extents, List.getElem_map, hpart.sizes_eq]
    rw [List.getD_eq_getElem?_getD, List.getElem?_set_self haxis, Option.getD_some]

/-- A piece has the element type and the other sizes of the whole. -/
theorem kept {piece : Tensor} (hpiece : piece ∈ pieces) :
    piece.element = t.element ∧ piece.rank = t.rank ∧
      ∀ i, i ≠ axis → piece.sizes[i]? = t.sizes[i]? := by
  obtain ⟨k, hk⟩ := List.mem_iff_getElem?.1 hpiece
  have hlt : k < lengths.length := h.length_eq ▸ (List.getElem?_eq_some_iff.1 hk).1
  obtain ⟨piece', hpiece', hpart⟩ := h.part k _ (List.getElem?_eq_getElem hlt)
  obtain rfl := Option.some.inj (hk.symm.trans hpiece')
  refine ⟨hpart.element_eq, ?_, fun i hi => ?_⟩
  · rw [rank, hpart.sizes_eq, List.length_set, rank]
  · rw [hpart.sizes_eq, List.getElem?_set_ne hi.symm]

/-- The pieces of a well-formed whole can be joined. -/
theorem joinable (ht : t.WellFormed) (hne : lengths ≠ []) : Joinable axis pieces where
  ne_nil := by
    rintro rfl
    exact hne (List.length_eq_zero_iff.1 h.length_eq.symm)
  wellFormed _ hpiece := h.wellFormed ht hpiece
  axis_lt piece hpiece := (h.kept hpiece).2.1 ▸ (List.getElem?_eq_some_iff.1 h.size_eq).1
  element_eq piece hpiece piece' hpiece' := (h.kept hpiece).1.trans (h.kept hpiece').1.symm
  rank_eq piece hpiece piece' hpiece' := (h.kept hpiece).2.1.trans (h.kept hpiece').2.1.symm
  size_eq piece hpiece piece' hpiece' i hi :=
    ((h.kept hpiece).2.2 i hi).trans ((h.kept hpiece').2.2 i hi).symm

/-- The pieces have together as many elements as a well-formed whole. -/
theorem sum_count_eq (ht : t.WellFormed) (hne : lengths ≠ []) :
    (pieces.map Tensor.count).sum = volume t.sizes := by
  have hjoinable := h.joinable ht hne
  obtain ⟨front, back, hframed⟩ := hjoinable.exists_framed
  obtain ⟨piece, hpiece⟩ := List.exists_mem_of_ne_nil _ hjoinable.ne_nil
  obtain ⟨k, hk⟩ := List.mem_iff_getElem?.1 hpiece
  have hlt : k < lengths.length := h.length_eq ▸ (List.getElem?_eq_some_iff.1 hk).1
  obtain ⟨piece', hpiece', hpart⟩ := h.part k _ (List.getElem?_eq_getElem hlt)
  obtain rfl := Option.some.inj (hk.symm.trans hpiece')
  obtain ⟨haxis, hsum⟩ := List.getElem?_eq_some_iff.1 h.size_eq
  rw [← hframed.volume_joined, ← hframed.set_eq hpiece, hpart.sizes_eq, List.set_set, h.extents_eq,
    ← hsum, List.set_getElem_self]

end Division

end Concat

section Columns

/-- Three columns of two integers. -/
def threeColumns : Tensor := ⟨[2, 3], .i64 #[1, 2, 3, 4, 5, 6], by decide⟩

/-- One column of two integers. -/
def oneColumn : Tensor := ⟨[2, 1], .i64 #[7, 8], by decide⟩

end Columns

section Halves

/-- No rows of half as many columns as words count. -/
def emptyHalf : Tensor := ⟨[0, 9223372036854775808], .f32 #[], by decide⟩

/-- No columns at all. -/
def noColumns : Tensor := ⟨[0, 0], .f32 #[], by decide⟩

end Halves

end Tensor

end TensorLowering
