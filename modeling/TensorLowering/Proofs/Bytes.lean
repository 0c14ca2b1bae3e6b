import Mathlib.Algebra.Group.Nat.Defs
import TensorLowering.Bytes

/-!
# Words of a payload

Reading a payload cuts it into words from the front, and drops an end that is too short for a word.
So a payload holds certain words exactly when it is made of the bytes of these words, with less than
one more word behind them.

## Main statements

* `Bytes.littleEndian_toNat`: the bytes of the number that bytes stand for are these bytes.
* `Bytes.Cuts.cut_eq_iff`: what a payload has to be for its words to be the given ones.
-/

namespace TensorLowering.Bytes

open Numeric

theorem toNat_lt (bytes : List UInt8) : toNat bytes < 256 ^ bytes.length := by
  induction bytes with
  | nil => exact Nat.one_pos
  | cons b rest ih =>
      have hb : b.toNat < 256 := b.toNat_lt
      rw [toNat, List.length_cons, Nat.pow_succ]
      omega

/-- The bytes of the number that bytes stand for are these bytes. -/
theorem littleEndian_toNat (bytes : List UInt8) :
    littleEndian bytes.length (toNat bytes) = bytes := by
  induction bytes with
  | nil => rfl
  | cons b rest ih =>
      have hb : b.toNat < 256 := b.toNat_lt
      have hlow : (b.toNat + 256 * toNat rest).toUInt8 = b := by
        apply UInt8.toNat_inj.1
        rw [Nat.toUInt8, UInt8.toNat_ofNat']
        omega
      have hhigh : (b.toNat + 256 * toNat rest) / 256 = toNat rest := by omega
      rw [toNat, List.length_cons, littleEndian, hlow, hhigh, ih]

/-- A reader that cuts a payload into words of `size` bytes, as `encode` writes them, and drops what
is shorter than a word. -/
structure Cuts {α : Type} (size : Nat) (cut : List UInt8 → List α) (encode : α → List UInt8) :
    Prop where
  step : ∀ word rest, cut (encode word ++ rest) = word :: cut rest
  stop : ∀ bytes, bytes.length < size → cut bytes = []
  length : ∀ word, (encode word).length = size
  covers : ∀ bytes, bytes.length = size → ∃ word, encode word = bytes

namespace Cuts

variable {α β : Type} {size : Nat} {cut : List UInt8 → List α} {encode : α → List UInt8}
  (h : Cuts size cut encode)
include h

theorem length_flatMap (words : List α) : (words.flatMap encode).length = words.length * size := by
  induction words with
  | nil => exact (Nat.zero_mul size).symm
  | cons word words ih =>
      rw [List.flatMap_cons, List.length_append, h.length, ih, List.length_cons, Nat.succ_mul]
      exact Nat.add_comm _ _

theorem cut_append (words : List α) {surplus : List UInt8} (hsurplus : surplus.length < size) :
    cut (words.flatMap encode ++ surplus) = words := by
  induction words with
  | nil => exact h.stop surplus hsurplus
  | cons word words ih => rw [List.flatMap_cons, List.append_assoc, h.step, ih]

/-- Every payload is made of the bytes of its words and less than one more word. -/
theorem exists_surplus (hsize : 0 < size) (bytes : List UInt8) :
    ∃ surplus, bytes = (cut bytes).flatMap encode ++ surplus ∧ surplus.length < size := by
  induction hlength : bytes.length using Nat.strongRecOn generalizing bytes with
  | ind n ih =>
      rcases Nat.lt_or_ge bytes.length size with hshort | hlong
      · refine ⟨bytes, ?_, hshort⟩
        rw [h.stop bytes hshort]
        rfl
      · obtain ⟨word, hword⟩ := h.covers (bytes.take size) (List.length_take_of_le hlong)
        have hdrop : (bytes.drop size).length < n := by
          rw [List.length_drop]
          omega
        obtain ⟨surplus, hrest, hsurplus⟩ := ih _ hdrop _ rfl
        refine ⟨surplus, ?_, hsurplus⟩
        calc
          bytes = encode word ++ bytes.drop size := by rw [hword, List.take_append_drop]
          _ = encode word ++ ((cut (bytes.drop size)).flatMap encode ++ surplus) :=
              congrArg (encode word ++ ·) hrest
          _ = (cut (encode word ++ bytes.drop size)).flatMap encode ++ surplus := by
              rw [h.step, List.flatMap_cons, List.append_assoc]
          _ = (cut bytes).flatMap encode ++ surplus := by rw [hword, List.take_append_drop]

/-- What a payload has to be for its words to be the given ones. -/
theorem cut_eq_iff (hsize : 0 < size) (bytes : List UInt8) (words : List α) :
    cut bytes = words ↔
      ∃ surplus, bytes = words.flatMap encode ++ surplus ∧ surplus.length < size := by
  constructor
  · rintro rfl
    exact h.exists_surplus hsize bytes
  · rintro ⟨surplus, rfl, hsurplus⟩
    exact h.cut_append words hsurplus

/-- The same for values that are words in another form. -/
theorem map {f : α → β} {encode' : β → List UInt8} (hf : Function.Surjective f)
    (hencode : ∀ word, encode' (f word) = encode word) :
    Cuts size (fun bytes => (cut bytes).map f) encode' where
  step := by
    intro value rest
    obtain ⟨word, rfl⟩ := hf value
    rw [hencode, h.step, List.map_cons]
  stop := by
    intro bytes hshort
    rw [h.stop bytes hshort, List.map_nil]
  length := by
    intro value
    obtain ⟨word, rfl⟩ := hf value
    rw [hencode, h.length]
  covers := by
    intro bytes hbytes
    obtain ⟨word, hword⟩ := h.covers bytes hbytes
    exact ⟨f word, (hencode word).trans hword⟩

end Cuts

theorem cuts_words32 : Cuts 4 words32 fun w => littleEndian 4 w.toNat where
  step := by
    intro word rest
    have hread : (toNat (littleEndian 4 word.toNat)).toUInt32 = word := by
      have hlt : word.toNat < Nat.pow 256 4 := word.toNat_lt
      rw [toNat_littleEndian, Nat.mod_eq_of_lt hlt]
      exact UInt32.ofNat_toNat
    exact congrArg (· :: words32 rest) hread
  stop := by
    intro bytes hshort
    rw [words32]
    rintro a b c d rest rfl
    simp only [List.length_cons] at hshort
    omega
  length := fun word => length_littleEndian 4 word.toNat
  covers := by
    intro bytes hlength
    refine ⟨(toNat bytes).toUInt32, ?_⟩
    have hlt : toNat bytes < 2 ^ 32 := by
      have h := toNat_lt bytes
      rwa [hlength] at h
    rw [Nat.toUInt32, UInt32.toNat_ofNat_of_lt' hlt, ← hlength, littleEndian_toNat]

theorem cuts_words64 : Cuts 8 words64 fun w => littleEndian 8 w.toNat where
  step := by
    intro word rest
    have hread : (toNat (littleEndian 8 word.toNat)).toUInt64 = word := by
      have hlt : word.toNat < Nat.pow 256 8 := word.toNat_lt
      rw [toNat_littleEndian, Nat.mod_eq_of_lt hlt]
      exact UInt64.ofNat_toNat
    exact congrArg (· :: words64 rest) hread
  stop := by
    intro bytes hshort
    rw [words64]
    rintro a b c d e f g h rest rfl
    simp only [List.length_cons] at hshort
    omega
  length := fun word => length_littleEndian 8 word.toNat
  covers := by
    intro bytes hlength
    refine ⟨(toNat bytes).toUInt64, ?_⟩
    have hlt : toNat bytes < 2 ^ 64 := by
      have h := toNat_lt bytes
      rwa [hlength] at h
    rw [Nat.toUInt64, UInt64.toNat_ofNat_of_lt' hlt, ← hlength, littleEndian_toNat]

/-- A payload of 32-bit numbers. -/
theorem cuts_binary32 : Cuts 4 (fun bytes => (words32 bytes).map Binary32.mk) ofBinary32 :=
  cuts_words32.map (fun x => ⟨x.bits, rfl⟩) fun _ => rfl

/-- A payload of 32-bit integers. -/
theorem cuts_int32 : Cuts 4 (fun bytes => (words32 bytes).map UInt32.toInt32) ofInt32 :=
  cuts_words32.map (fun n => ⟨n.toUInt32, rfl⟩) fun _ => rfl

/-- A payload of 64-bit integers. -/
theorem cuts_int64 : Cuts 8 (fun bytes => (words64 bytes).map UInt64.toInt64) ofInt64 :=
  cuts_words64.map (fun n => ⟨n.toUInt64, rfl⟩) fun _ => rfl

end TensorLowering.Bytes
