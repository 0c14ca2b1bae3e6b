import Mathlib.Algebra.Ring.Nat
import TensorLowering.Proofs.Tensor.Bounds

/-!
# Entries of tensors

A tensor is read as a nested array: one block of elements for each coordinate of its first axis, and
so on inside of the blocks. `Tensor.scalar?` is the element at given coordinates, whatever its type.
What a kernel does is said in terms of entries, and a tensor is determined by them.

## Main statements

* `Indexing.entryOf_eq_getElem?`: an entry stands at the number of its coordinates.
* `Tensor.ext_entries`: well-formed tensors of one type and one list of sizes with the same entries are
  equal.
* `Tensor.exists_moved`: the entries of a tensor whose elements are those of another one.
-/

namespace TensorLowering

open Numeric

/-- An element of a tensor, with its type. -/
inductive Scalar where
  | f32 (value : Binary32)
  | i32 (value : Int32)
  | i64 (value : Int64)
  deriving DecidableEq, Repr

namespace Elements

/-- The elements one after the other. -/
def toList : Elements → List Scalar
  | f32 values => values.toList.map .f32
  | i32 values => values.toList.map .i32
  | i64 values => values.toList.map .i64

@[simp] theorem length_toList (elements : Elements) : elements.toList.length = elements.size := by
  cases elements <;> simp [toList, size]

/-- Elements of one type are determined by what they are one by one. -/
theorem eq_of_toList_eq {elements elements' : Elements} (htype : elements.element = elements'.element)
    (h : elements.toList = elements'.toList) : elements = elements' := by
  have hinjective : ∀ {α : Type} {wrap : α → Scalar}, Function.Injective wrap →
      ∀ {values values' : Array α}, values.toList.map wrap = values'.toList.map wrap →
        values = values' := by
    intro α wrap hwrap values values' hmap
    exact Array.toList_inj.1 (List.map_injective_iff.2 hwrap hmap)
  cases elements <;> cases elements' <;> cases htype
  case f32 => rw [hinjective (fun _ _ => Scalar.f32.inj) h]
  case i32 => rw [hinjective (fun _ _ => Scalar.i32.inj) h]
  case i64 => rw [hinjective (fun _ _ => Scalar.i64.inj) h]

/-- Elements can be gathered from positions that are all there. -/
theorem exists_gathered {elements : Elements} {positions : List Nat}
    (h : ∀ k ∈ positions, k < elements.size) :
    ∃ gathered, elements.gather positions = some gathered ∧
      gathered.element = elements.element ∧ gathered.size = positions.length ∧
      ∀ i k : Nat, positions[i]? = some k → gathered.toList[i]? = elements.toList[k]? := by
  have hall : ∀ {α : Type} (values : Array α) (wrap : α → Scalar), values.size = elements.size →
      ∃ vs : List α, positions.mapM (values[·]?) = some vs ∧ vs.length = positions.length ∧
        ∀ i k : Nat, positions[i]? = some k → (vs.map wrap)[i]? = (values.toList.map wrap)[k]? := by
    intro α values wrap hsize
    obtain ⟨vs, hvs⟩ := Outcome.exists_mapM_eq_some fun k hk =>
      ⟨_, Array.getElem?_eq_getElem (hsize ▸ h k hk)⟩
    have hread := Outcome.mapM_eq_some_iff.1 hvs
    refine ⟨vs, hvs, hread.length_eq.symm, ?_⟩
    intro i k hk
    obtain ⟨v, hv, hvalue⟩ := exists_right_of_forall₂ hread hk
    rw [List.getElem?_map, List.getElem?_map, hv, Array.getElem?_toList, hvalue]
  cases elements with
  | f32 values =>
      obtain ⟨vs, hvs, hlength, hread⟩ := hall values .f32 rfl
      exact ⟨.f32 vs.toArray, by rw [gather, hvs, Option.map_some], rfl, hlength, hread⟩
  | i32 values =>
      obtain ⟨vs, hvs, hlength, hread⟩ := hall values .i32 rfl
      exact ⟨.i32 vs.toArray, by rw [gather, hvs, Option.map_some], rfl, hlength, hread⟩
  | i64 values =>
      obtain ⟨vs, hvs, hlength, hread⟩ := hall values .i64 rfl
      exact ⟨.i64 vs.toArray, by rw [gather, hvs, Option.map_some], rfl, hlength, hread⟩

end Elements

section Blocks

variable {α : Type} {blocks : List (List α)} {block : List α} {k r : Nat}

/-- What stands in a block of a list of blocks stands behind the blocks in front of it. -/
theorem getElem?_flatten_block (hk : blocks[k]? = some block) (hr : r < block.length) :
    blocks.flatten[((blocks.take k).map List.length).sum + r]? = block[r]? := by
  obtain ⟨hlt, rfl⟩ := List.getElem?_eq_some_iff.1 hk
  have hsplit : blocks.flatten =
      (blocks.take k).flatten ++ (blocks[k] ++ (blocks.drop (k + 1)).flatten) := by
    conv_lhs => rw [← List.take_append_drop k blocks]
    rw [List.flatten_append, List.drop_eq_getElem_cons hlt, List.flatten_cons]
  rw [hsplit, ← List.length_flatten, List.getElem?_append_right (Nat.le_add_right _ _),
    Nat.add_sub_cancel_left, List.getElem?_append_left hr]

/-- Blocks of one length are as long as their number says. -/
theorem length_flatten_uniform {width : Nat} (hwidth : ∀ block ∈ blocks, block.length = width) :
    blocks.flatten.length = blocks.length * width := by
  have hlengths : blocks.map List.length = List.replicate blocks.length width := by
    rw [List.eq_replicate_iff]
    exact ⟨List.length_map _, List.forall_mem_map.2 hwidth⟩
  rw [List.length_flatten, hlengths, List.sum_replicate_nat]

/-- What stands in a block of a list of blocks of one length. -/
theorem getElem?_flatten_uniform {width : Nat} (hwidth : ∀ block ∈ blocks, block.length = width)
    (hk : blocks[k]? = some block) (hr : r < width) :
    blocks.flatten[k * width + r]? = block[r]? := by
  have hlt := (List.getElem?_eq_some_iff.1 hk).1
  have hfront : (blocks.take k).flatten.length = k * width := by
    rw [length_flatten_uniform fun block hblock => hwidth block (List.mem_of_mem_take hblock),
      List.length_take_of_le (Nat.le_of_lt hlt)]
  have hread := getElem?_flatten_block hk (hwidth block (List.mem_of_getElem? hk) ▸ hr)
  rwa [← List.length_flatten, hfront] at hread

end Blocks

namespace Indexing

variable {sizes coords : List Nat}

/-- Coordinates do not change when the number loses multiples of the volume. -/
theorem digits_mod (sizes : List Nat) (index : Nat) :
    digits sizes (index % volume sizes) = digits sizes index := by
  induction sizes generalizing index with
  | nil => rfl
  | cons size rest ih =>
      have hfirst : index % volume (size :: rest) / volume rest % size =
          index / volume rest % size := by
        rw [volume, Nat.mul_comm, Nat.mod_mul_right_div_self, Nat.mod_mod]
      have hinner : index % volume (size :: rest) % volume rest = index % volume rest :=
        Nat.mod_mod_of_dvd _ (Nat.dvd_mul_left _ _)
      rw [digits, digits, hfirst, ← ih (index % _), hinner, ih]

/-- Coordinates in range come back from their number. -/
theorem digits_number (h : InRange coords sizes) :
    digits sizes (number coords (places sizes)) = coords := by
  induction h with
  | nil => rfl
  | @cons coord size coords rest hcoord hrest ih =>
      have hinner := number_lt hrest
      rw [places, number, digits, row_index_div hinner, Nat.mod_eq_of_lt hcoord, ← digits_mod,
        row_index_mod hinner, ih]

/-- Coordinates in range have a number of their own. -/
theorem number_inj {cs ds : List Nat} (hcs : InRange cs sizes) (hds : InRange ds sizes) :
    number cs (places sizes) = number ds (places sizes) ↔ cs = ds := by
  constructor
  · intro h
    rw [← digits_number hcs, h, digits_number hds]
  · rintro rfl
    rfl

/-- The entry at given coordinates of a list that holds the entries of a nested array: one block for
each coordinate of the first axis, one after the other. -/
def entryOf {α : Type} : List Nat → List Nat → List α → Option α
  | [], [], values => values.head?
  | size :: sizes, coord :: coords, values =>
    if coord < size then
      entryOf sizes coords ((values.drop (coord * volume sizes)).take (volume sizes))
    else none
  | _, _, _ => none

section EntryOf

variable {α : Type}

/-- An entry stands at the number of its coordinates. -/
theorem entryOf_eq_getElem? (h : InRange coords sizes) (values : List α) :
    entryOf sizes coords values = values[number coords (places sizes)]? := by
  induction h generalizing values with
  | nil => exact List.head?_eq_getElem?
  | cons hcoord hrest ih =>
      rw [entryOf, if_pos hcoord, ih, List.getElem?_take_of_lt (number_lt hrest),
        List.getElem?_drop]
      rfl

/-- There are no entries elsewhere. -/
theorem inRange_of_entryOf {values : List α} {x : α} (h : entryOf sizes coords values = some x) :
    InRange coords sizes := by
  induction sizes generalizing coords values with
  | nil =>
      cases coords with
      | nil => exact .nil
      | cons coord coords => cases h
  | cons size sizes ih =>
      cases coords with
      | nil => cases h
      | cons coord coords =>
          rw [entryOf] at h
          split at h
          · next hcoord => exact .cons hcoord (ih h)
          · cases h

/-- Entries are computed from entries when all of them are. -/
theorem entryOf_map {β : Type} (f : α → β) (sizes coords : List Nat) (values : List α) :
    entryOf sizes coords (values.map f) = (entryOf sizes coords values).map f := by
  induction sizes generalizing coords values with
  | nil =>
      cases coords with
      | nil => exact List.head?_map
      | cons coord coords => rfl
  | cons size sizes ih =>
      cases coords with
      | nil => rfl
      | cons coord coords =>
          rw [entryOf, entryOf, ← List.map_drop, ← List.map_take, ih]
          split <;> rfl

/-- What is computed at the coordinates of each number in turn stands at these coordinates, as far as
the numbers go. -/
theorem entryOf_of_mapM_coordinates {f : List Nat → Outcome EngineError α} {values : List α}
    {count : Nat} (h : ((List.range count).mapM fun index => do
      let coords ← coordinates sizes index
      f coords) = .ok values) (hcoords : InRange coords sizes)
    (hcount : number coords (places sizes) < count) :
    ∃ x, f coords = .ok x ∧ entryOf sizes coords values = some x := by
  obtain ⟨x, hx, hcompute⟩ := Outcome.getElem?_of_mapM_eq_ok h (List.getElem?_range hcount)
  rw [coordinates_eq_ok (number_lt hcoords), digits_number hcoords] at hcompute
  exact ⟨x, hcompute, (entryOf_eq_getElem? hcoords values).trans hx⟩

/-- A computation at the coordinates of numbers below the volume succeeds when it does at coordinates
in range. -/
theorem exists_mapM_coordinates {f : List Nat → Outcome EngineError α} {count : Nat}
    (hcount : count ≤ volume sizes) (h : ∀ coords, InRange coords sizes → ∃ x, f coords = .ok x) :
    ∃ values, ((List.range count).mapM fun index => do
      let coords ← coordinates sizes index
      f coords) = .ok values ∧ values.length = count := by
  obtain ⟨values, hvalues⟩ := Outcome.exists_mapM_eq_ok
    (f := fun index => do
      let coords ← coordinates sizes index
      f coords) fun index hindex => by
    have hlt := Nat.lt_of_lt_of_le (List.mem_range.1 hindex) hcount
    obtain ⟨coords, hcoords, hrange⟩ := exists_coordinates hlt
    obtain ⟨x, hx⟩ := h coords hrange
    exact ⟨x, by rw [hcoords]; exact hx⟩
  exact ⟨values, hvalues, by
    rw [← (Outcome.mapM_eq_ok_iff.1 hvalues).length_eq, List.length_range]⟩

end EntryOf

end Indexing

namespace Tensor

open Indexing

/-- The element at given coordinates, when they are in range. -/
def scalar? (t : Tensor) (coords : List Nat) : Option Scalar :=
  entryOf t.sizes coords t.elements.toList

variable {t t' : Tensor} {coords : List Nat}

theorem scalar?_eq_getElem? (h : InRange coords t.sizes) :
    t.scalar? coords = t.elements.toList[number coords (places t.sizes)]? :=
  entryOf_eq_getElem? h _

theorem count_eq_wordVolume (t : Tensor) : t.count = wordVolume t.sizes := t.count_eq.symm

/-- A tensor has entries at the coordinates below its sizes whose numbers are below that of its
elements, and nowhere else. -/
theorem exists_scalar?_iff : (∃ x, t.scalar? coords = some x) ↔
    InRange coords t.sizes ∧ number coords (places t.sizes) < t.count := by
  constructor
  · rintro ⟨x, hx⟩
    have hrange := inRange_of_entryOf hx
    rw [scalar?_eq_getElem? hrange] at hx
    rw [count, ← Elements.length_toList]
    exact ⟨hrange, (List.getElem?_eq_some_iff.1 hx).1⟩
  · rintro ⟨hrange, hlt⟩
    rw [count, ← Elements.length_toList] at hlt
    exact ⟨_, (scalar?_eq_getElem? hrange).trans (List.getElem?_eq_getElem hlt)⟩

/-- No entry is missing exactly when a word holds the number of elements that the sizes stand for. -/
theorem forall_exists_scalar?_iff : (∀ coords, InRange coords t.sizes → ∃ x, t.scalar? coords = some x) ↔
    volume t.sizes < UInt64.size := by
  rw [← wellFormed_iff]
  constructor
  · intro h
    by_contra hwell
    -- the element behind the last one that is there
    have hcount : t.count < volume t.sizes :=
      Nat.lt_of_le_of_ne (t.count_eq_wordVolume ▸ wordVolume_le t.sizes) (Ne.symm hwell)
    have hrange := inRange_digits (zero_notMem_of_lt_volume hcount) t.count
    have hlt := (exists_scalar?_iff.1 (h _ hrange)).2
    rw [number_digits, Nat.mod_eq_of_lt hcount] at hlt
    exact Nat.lt_irrefl _ hlt
  · intro hwell coords hrange
    rw [exists_scalar?_iff, count, ← hwell]
    exact ⟨hrange, number_lt hrange⟩

theorem scalar?_eq_none_iff : t.scalar? coords = none ↔
    ¬ (InRange coords t.sizes ∧ number coords (places t.sizes) < t.count) := by
  rw [← exists_scalar?_iff, ← Option.ne_none_iff_exists', not_not]

/-- The entries of a tensor of 32-bit numbers. -/
theorem scalar?_eq_some_f32_iff {values : Array Binary32} (hvalues : t.elements = .f32 values)
    {x : Binary32} :
    t.scalar? coords = some (.f32 x) ↔ entryOf t.sizes coords values.toList = some x := by
  rw [scalar?, hvalues, Elements.toList, entryOf_map, Option.map_eq_some_iff]
  constructor
  · rintro ⟨y, hy, hwrap⟩
    rw [hy, Scalar.f32.inj hwrap]
  · intro hx
    exact ⟨x, hx, rfl⟩

theorem scalar?_eq_map {values : Array Binary32} (hvalues : t.elements = .f32 values)
    (h : InRange coords t.sizes) :
    t.scalar? coords = (values[number coords (places t.sizes)]?).map .f32 := by
  rw [scalar?_eq_getElem? h, hvalues, Elements.toList, List.getElem?_map, Array.getElem?_toList]

/-- What is computed for the coordinates of the numbers that elements have stands at these coordinates,
and nothing does at others. -/
theorem scalar?_eq_ite {values : Array Binary32} (hvalues : t.elements = .f32 values) {x : Binary32}
    (h : number coords (places t.sizes) < wordVolume t.sizes →
      entryOf t.sizes coords values.toList = some x) :
    t.scalar? coords =
      if number coords (places t.sizes) < wordVolume t.sizes then some (.f32 x) else none := by
  split
  · next hlt => exact (scalar?_eq_some_f32_iff hvalues).2 (h hlt)
  · next hge =>
    rw [← count_eq_wordVolume] at hge
    exact scalar?_eq_none_iff.2 fun hentry => hge hentry.2

section WellFormed

variable (ht : t.WellFormed)
include ht

theorem WellFormed.number_lt_count (h : InRange coords t.sizes) :
    number coords (places t.sizes) < t.count := by
  rw [count, ← ht]
  exact number_lt h

/-- A well-formed tensor has entries at all coordinates below its sizes. -/
theorem WellFormed.exists_scalar? (h : InRange coords t.sizes) : ∃ x, t.scalar? coords = some x :=
  exists_scalar?_iff.2 ⟨h, ht.number_lt_count h⟩

/-- A well-formed tensor has as many numbers as its sizes stand for. -/
theorem WellFormed.size_eq {values : Array Binary32} (hvalues : t.elements = .f32 values) :
    values.size = volume t.sizes := by
  rw [ht, hvalues, Elements.size]

/-- What a word keeps of a number leads to the same entry of a well-formed tensor. -/
theorem WellFormed.scalar?_eq_map_wrap {values : Array Binary32} (hvalues : t.elements = .f32 values)
    (h : InRange coords t.sizes) :
    t.scalar? coords = (values[wrap (number coords (places t.sizes))]?).map .f32 := by
  rw [wrap_of_lt (Nat.lt_trans (number_lt h) ht.volume_lt), scalar?_eq_map hvalues h]

/-- A well-formed tensor of 32-bit numbers has numbers at all coordinates below its sizes. -/
theorem WellFormed.exists_float_entry (helement : t.element = .f32) (h : InRange coords t.sizes) :
    ∃ x, t.scalar? coords = some (.f32 x) := by
  obtain ⟨values, hvalues⟩ := exists_floats_of_element helement
  obtain ⟨x, hx⟩ := ht.exists_scalar? h
  rw [scalar?, hvalues, Elements.toList, entryOf_map] at hx
  obtain ⟨y, hy, -⟩ := Option.map_eq_some_iff.1 hx
  exact ⟨y, (scalar?_eq_some_f32_iff hvalues).2 hy⟩

end WellFormed

/-- A well-formed tensor is determined by its element type, its sizes and its entries. -/
theorem ext_entries (ht : t.WellFormed) (helement : t.element = t'.element)
    (hsizes : t.sizes = t'.sizes)
    (h : ∀ coords, InRange coords t.sizes → t.scalar? coords = t'.scalar? coords) : t = t' := by
  have hlist : t.elements.toList = t'.elements.toList := by
    apply List.ext_getElem
    · rw [Elements.length_toList, Elements.length_toList, ← t.count_eq, ← t'.count_eq, hsizes]
    · intro index hindex hindex'
      rw [Elements.length_toList, ← ht] at hindex
      have hrange := inRange_digits (zero_notMem_of_lt_volume hindex) index
      have hnumber : number (digits t.sizes index) (places t.sizes) = index := by
        rw [number_digits, Nat.mod_eq_of_lt hindex]
      have hentry := h _ hrange
      rw [scalar?_eq_getElem? hrange, scalar?_eq_getElem? (hsizes ▸ hrange), ← hsizes, hnumber] at hentry
      apply Option.some.inj
      rwa [← List.getElem?_eq_getElem, ← List.getElem?_eq_getElem]
  have helements := Elements.eq_of_toList_eq helement hlist
  rcases t with ⟨sizes, elements, _⟩
  rcases t' with ⟨sizes', elements', _⟩
  cases hsizes
  cases helements
  rfl

/-- Elements can be moved to new coordinates: the place that the element for given coordinates is taken
from has to be there. -/
theorem exists_moved (t : Tensor) {sizes : List Nat} {count : Nat} (place : List Nat → Nat)
    (hcount : count = volume sizes) (hword : volume sizes < UInt64.size)
    (h : ∀ coords, InRange coords sizes → place coords < t.count) :
    ∃ t' : Tensor, (do
        let positions ← (List.range count).mapM fun index => do
          let coords ← coordinates sizes index
          pure (place coords)
        t.rearrange sizes positions) = .ok t' ∧
      t'.element = t.element ∧ t'.sizes = sizes ∧
      ∀ coords, InRange coords sizes → t'.scalar? coords = t.elements.toList[place coords]? := by
  subst hcount
  have hplaces : ∀ coords, InRange coords sizes →
      ∃ k, (pure (place coords) : Outcome EngineError Nat) = .ok k := fun coords _ => ⟨_, rfl⟩
  obtain ⟨positions, hpositions, hlength⟩ := exists_mapM_coordinates (Nat.le_refl _) hplaces
  have hbound : ∀ k ∈ positions, k < t.elements.size := by
    intro k hk
    obtain ⟨i, hi⟩ := List.mem_iff_getElem?.1 hk
    obtain ⟨index, hindex, hplace⟩ :=
      exists_left_of_forall₂ (Outcome.mapM_eq_ok_iff.1 hpositions) hi
    obtain ⟨coords, hcoords, hrange⟩ :=
      exists_coordinates (List.mem_range.1 (List.mem_of_getElem? hindex))
    rw [hcoords] at hplace
    exact Except.ok.inj hplace ▸ h coords hrange
  obtain ⟨gathered, hgathered, helement, hsize, hread⟩ := Elements.exists_gathered hbound
  have hnew : wordVolume sizes = gathered.size := by
    rw [hsize, hlength, wordVolume_eq_volume_iff.2 hword]
  refine ⟨⟨sizes, gathered, hnew⟩, ?_, helement, rfl, ?_⟩
  · rw [hpositions]
    change t.rearrange sizes positions = _
    rw [rearrange, hgathered]
    exact new_eq_ok_iff.2 ⟨rfl, rfl⟩
  · intro coords hcoords
    obtain ⟨k, hk, hentry⟩ := entryOf_of_mapM_coordinates hpositions hcoords (number_lt hcoords)
    obtain rfl := Outcome.pure_eq_ok_iff.1 hk
    rw [entryOf_eq_getElem? hcoords] at hentry
    rw [scalar?, entryOf_eq_getElem? hcoords]
    exact hread _ _ hentry

end Tensor

end TensorLowering
