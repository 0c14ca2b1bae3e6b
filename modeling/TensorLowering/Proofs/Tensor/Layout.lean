import TensorLowering.Proofs.Outcome
import TensorLowering.Proofs.Tensor.Indexing
import TensorLowering.Spec.Shape
import TensorLowering.Tensor.Elementwise
import TensorLowering.Tensor.Layout

/-!
# Rearranged tensors

A tensor stays what it is when it gets its own sizes or its own element type. Swapping the last two
axes transposes every matrix of a batch.
-/

namespace TensorLowering

open Numeric Indexing

namespace Indexing

theorem zero_notMem_of_lt_volume {sizes : List Nat} {index : Nat} (h : index < volume sizes) :
    0 ∉ sizes := by
  induction sizes generalizing index with
  | nil => exact List.not_mem_nil
  | cons size rest ih =>
      rw [volume] at h
      have hproduct : 0 < size * volume rest := Nat.lt_of_le_of_lt (Nat.zero_le _) h
      rw [List.mem_cons, not_or]
      exact ⟨Nat.ne_of_lt (Nat.pos_of_mul_pos_right hproduct),
        ih (Nat.pos_of_mul_pos_left hproduct)⟩

/-- A number below the volume has coordinates. -/
theorem coordinates_eq_ok {ε : Type} {sizes : List Nat} {index : Nat} (h : index < volume sizes) :
    (coordinates sizes index : Outcome ε (List Nat)) = .ok (digits sizes index) := by
  rw [coordinates, if_neg (zero_notMem_of_lt_volume h)]

end Indexing

namespace Tensor

theorem new_eq_ok_iff {sizes : List Nat} {elements : Elements} {t : Tensor} :
    new sizes elements = .ok t ↔ t.sizes = sizes ∧ t.elements = elements := by
  rcases t with ⟨sizes', elements', hcount⟩
  rw [new]
  split
  · simp only [Except.ok.injEq, Tensor.mk.injEq, eq_comm]
  · next hne =>
    simp only [failExecution, Outcome.fail_ne_ok, false_iff]
    rintro ⟨rfl, rfl⟩
    exact hne hcount

theorem element_of_floats {t : Tensor} {values : Array Binary32} (h : t.elements = .f32 values) :
    t.element = .f32 := by
  rw [element, h]
  rfl

theorem exists_floats_of_element {t : Tensor} (h : t.element = .f32) :
    ∃ values, t.elements = .f32 values := by
  rw [element] at h
  cases helements : t.elements with
  | f32 values => exact ⟨values, rfl⟩
  | i32 values => rw [helements] at h; cases h
  | i64 values => rw [helements] at h; cases h

/-- Giving a tensor its own sizes changes nothing. -/
theorem reshape_self (t : Tensor) : t.reshape t.sizes = .ok t := by
  have hcount : ¬ wordVolume t.sizes ≠ t.count := not_not.2 t.count_eq
  rw [reshape, if_neg hcount]
  exact new_eq_ok_iff.2 ⟨rfl, rfl⟩

/-- Converting a tensor to its own element type changes nothing. -/
theorem convert_self (t : Tensor) : t.convert t.element = .ok t := by
  rw [convert, if_pos rfl]
  rfl

/-- Elements can be put in another order, or dropped or repeated, when none is asked for that is not
there. -/
theorem exists_rearrange {t : Tensor} {values : Array Binary32} (sizes positions : List Nat)
    (helements : t.elements = .f32 values) (hbound : ∀ k ∈ positions, k < values.size)
    (hvolume : wordVolume sizes = positions.length) :
    ∃ (t' : Tensor) (values' : Array Binary32), t.rearrange sizes positions = .ok t' ∧
      t'.sizes = sizes ∧ t'.elements = .f32 values' ∧ values'.size = positions.length ∧
      ∀ i k : Nat, positions[i]? = some k → values'[i]? = values[k]? := by
  obtain ⟨vs, hvs⟩ : ∃ vs, positions.mapM (values[·]?) = some vs := by
    apply Outcome.exists_mapM_eq_some
    intro k hk
    exact ⟨_, Array.getElem?_eq_getElem (hbound k hk)⟩
  have hall := Outcome.mapM_eq_some_iff.1 hvs
  have hnew : wordVolume sizes = (Elements.f32 vs.toArray).size := hvolume.trans hall.length_eq
  refine ⟨⟨sizes, .f32 vs.toArray, hnew⟩, vs.toArray, ?_, rfl, rfl, hall.length_eq.symm, ?_⟩
  · have hgather : t.elements.gather positions = some (.f32 vs.toArray) := by
      rw [helements, Elements.gather, hvs, Option.map_some]
    rw [rearrange, hgather]
    exact new_eq_ok_iff.2 ⟨rfl, rfl⟩
  · intro i k hk
    obtain ⟨hi, rfl⟩ := List.getElem?_eq_some_iff.1 hk
    have hi' : i < vs.length := hall.length_eq ▸ hi
    rw [List.getElem?_toArray, List.getElem?_eq_getElem hi']
    exact (hall.get hi hi').symm

/-- Strides are read in an order as what the coordinates count for is. -/
theorem mapM_strides {sizes order steps : List Nat}
    (h : order.mapM ((places sizes)[·]?) = some steps) :
    order.mapM ((strides sizes)[·]?) = some (steps.map wrap) := by
  rw [Outcome.mapM_eq_some_iff] at h ⊢
  rw [strides_eq_map_wrap, List.forall₂_map_right_iff]
  exact h.imp fun axis step hstep => by rw [List.getElem?_map, hstep, Option.map_some]

/-- A permutation of axes moves the element at given coordinates to the number that they have when
they count for what the permuted coordinates do. -/
theorem permute_eq_rearrange {t : Tensor} {order sizes steps : List Nat}
    (hlength : order.length = t.rank) (hsizes : order.mapM (t.sizes[·]?) = some sizes)
    (hsteps : order.mapM ((places t.sizes)[·]?) = some steps) (hvolume : volume sizes = t.count)
    (hfits : ∀ index < t.count, number (digits sizes index) steps < UInt64.size) :
    t.permute order = t.rearrange sizes
      ((List.range t.count).map fun index => number (digits sizes index) steps) := by
  have hguard : ¬ (order.length ≠ t.rank ∨ order.any (t.rank ≤ ·) = true) := by
    rintro (hne | hany)
    · exact hne hlength
    · obtain ⟨axis, haxis, hle⟩ := List.any_eq_true.1 hany
      obtain ⟨i, hi⟩ := List.mem_iff_getElem?.1 haxis
      obtain ⟨hlt, rfl⟩ := List.getElem?_eq_some_iff.1 hi
      have hall := Outcome.mapM_eq_some_iff.1 hsizes
      have hread := hall.get hlt (hall.length_eq ▸ hlt)
      have hbound : order[i] < t.rank := (List.getElem?_eq_some_iff.1 hread).1
      exact Nat.not_le_of_lt hbound (of_decide_eq_true hle)
  have hpositions : (List.range t.count).mapM (fun index => do
      let coords ← coordinates sizes index
      pure (offset coords (steps.map wrap))) = (.ok ((List.range t.count).map fun index =>
        number (digits sizes index) steps) : Outcome EngineError (List Nat)) := by
    apply Outcome.mapM_eq_ok_map
    intro index hindex
    rw [List.mem_range] at hindex
    rw [coordinates_eq_ok (hvolume ▸ hindex)]
    exact congrArg Except.ok ((offset_map_wrap _ _).trans (wrap_of_lt (hfits index hindex)))
  rw [permute, if_neg hguard, hsizes, mapM_strides hsteps]
  exact congrArg (· >>= t.rearrange sizes) hpositions

/-- Reading a list in the order that swaps its last two entries. -/
theorem mapM_swapLastTwo (front : List Nat) (x y : Nat) :
    (List.range front.length ++ [front.length + 1, front.length]).mapM ((front ++ [x, y])[·]?) =
      some (front ++ [y, x]) := by
  rw [Outcome.mapM_eq_some_iff]
  refine List.rel_append ?_ (.cons (by simp) (.cons (by simp) .nil))
  rw [List.forall₂_iff_get]
  refine ⟨by simp, ?_⟩
  intro i hi hi'
  have hlt : i < front.length := by simpa using hi
  simp [List.getElem?_append_left hlt]

/-- The places of a batch of matrices in that order: a step along a row and one along a column change
places. -/
theorem mapM_places_swapLastTwo (batch : List Nat) (rows columns : Nat) :
    (List.range batch.length ++ [batch.length + 1, batch.length]).mapM
        ((places (batch ++ [rows, columns]))[·]?) =
      some ((places batch).map (· * (rows * columns)) ++ [1, columns]) := by
  have hplaces : places (batch ++ [rows, columns]) =
      (places batch).map (· * (rows * columns)) ++ [columns, 1] := by
    rw [places_append, volume_pair]
    simp [places, volume]
  have hlength : batch.length = ((places batch).map (· * (rows * columns))).length := by simp
  rw [hplaces, hlength]
  exact mapM_swapLastTwo _ _ _

/-- Every matrix in the second array is the transpose of the one in the first. -/
def TransposedIn (matrices rows columns : Nat) (values values' : Array Binary32) : Prop :=
  ∀ q i p, q < matrices → i < columns → p < rows →
    values'[q * (columns * rows) + (i * rows + p)]? =
      values[q * (rows * columns) + (p * columns + i)]?

/-- Where the element comes from that stands at a place of a matrix after its axes are swapped. -/
theorem number_swapped (batch : List Nat) {rows columns q i p : Nat} (hq : q < volume batch)
    (hi : i < columns) (hp : p < rows) :
    number (digits (batch ++ [columns, rows]) (q * (columns * rows) + (i * rows + p)))
        ((places batch).map (· * (rows * columns)) ++ [1, columns]) =
      q * (rows * columns) + (p * columns + i) := by
  rw [digits_matrix batch hi hp, number_append (by simp), number_map_mul, number_digits,
    Nat.mod_eq_of_lt hq]
  simp only [number, Nat.mul_one, Nat.add_zero]
  omega

/-- Swapping the last two axes transposes every matrix of the batch. -/
theorem permute_swapLastTwo {t : Tensor} {batch order : List Nat} {rows columns : Nat}
    {values : Array Binary32} (ht : t.WellFormed) (hsizes : t.sizes = batch ++ [rows, columns])
    (helements : t.elements = .f32 values) (horder : swapLastTwo? t.rank = some order) :
    ∃ t' values', t.permute order = .ok t' ∧ t'.sizes = batch ++ [columns, rows] ∧
      t'.elements = .f32 values' ∧ TransposedIn (volume batch) rows columns values values' := by
  have hrank : t.rank = batch.length + 2 := by simp [rank, hsizes]
  obtain rfl : order = List.range batch.length ++ [batch.length + 1, batch.length] := by
    rw [swapLastTwo?, hrank, if_pos (by omega)] at horder
    exact (Option.some.inj horder).symm
  have hcount : t.count = volume batch * (columns * rows) := by
    rw [count, ← ht, hsizes, volume_append, volume_pair, Nat.mul_comm rows]
  have hvalues : values.size = volume batch * (rows * columns) := by
    rw [Nat.mul_comm rows, ← hcount, count, helements, Elements.size]
  have hvolume : volume (batch ++ [columns, rows]) = t.count := by
    rw [volume_append, volume_pair, hcount]
  have hword : t.count < UInt64.size := by
    rw [count, ← ht]
    exact ht.volume_lt
  have hsteps := hsizes ▸ mapM_places_swapLastTwo batch rows columns
  let place := fun index => number (digits (batch ++ [columns, rows]) index)
    ((places batch).map (· * (rows * columns)) ++ [1, columns])
  have hplace : ∀ index < t.count, place index < values.size := by
    intro index hindex
    rw [hcount] at hindex
    obtain ⟨q, i, p, hq, hi, hp, rfl⟩ := exists_matrix_index hindex
    simp only [place]
    rw [number_swapped batch hq hi hp, hvalues]
    exact (matrix_index_lt_iff hp hi).2 hq
  have hbound : ∀ k ∈ (List.range t.count).map place, k < values.size := by
    refine List.forall_mem_map.2 fun index hindex => ?_
    exact hplace index (List.mem_range.1 hindex)
  have hlength : wordVolume (batch ++ [columns, rows]) = ((List.range t.count).map place).length := by
    rw [List.length_map, List.length_range, ← hvolume, wordVolume_eq_volume_iff, hvolume]
    exact hword
  obtain ⟨t', values', ht', hsizes', helements', -, hread⟩ :=
    exists_rearrange (batch ++ [columns, rows]) _ helements hbound hlength
  refine ⟨t', values', ?_, hsizes', helements', ?_⟩
  · have hfits : ∀ index < t.count, place index < UInt64.size := by
      intro index hindex
      have hlt := hplace index hindex
      rw [show values.size = t.count by rw [hvalues, hcount, Nat.mul_comm rows]] at hlt
      exact Nat.lt_trans hlt hword
    rw [permute_eq_rearrange (by simp [hrank]) (hsizes ▸ mapM_swapLastTwo batch rows columns) hsteps
      hvolume hfits]
    exact ht'
  · intro q i p hq hi hp
    have hindex : q * (columns * rows) + (i * rows + p) < t.count := by
      rw [hcount]
      exact (matrix_index_lt_iff hi hp).2 hq
    apply hread
    rw [List.getElem?_map, List.getElem?_range hindex, Option.map_some]
    exact congrArg some (number_swapped batch hq hi hp)

end Tensor

end TensorLowering
