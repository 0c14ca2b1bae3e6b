import TensorLowering.Proofs.Bytes
import TensorLowering.Proofs.Tensor.Layout

/-!
# Tensors of literals

A literal becomes a tensor when its payload holds as many whole elements as its shape asks for, which
are counted in a word that wraps around. What stands behind the last whole element is dropped without
notice: the bytes of the tensor are the payload only where the payload has the length that the type
asks for.

## Main statements

* `Tensor.ofLiteral_eq_ok_iff`: which tensor a literal becomes.
* `Tensor.ofLiteral_iff_wholeElements`: which literals become tensors, and what is lost of them.
-/

namespace TensorLowering

open Numeric

/-- The product of sizes that is found is their volume, and a word holds it. -/
theorem checkedVolume_eq_some {sizes : List Nat} {v : Nat} (h : checkedVolume sizes = some v) :
    v = volume sizes ∧ v < UInt64.size := by
  have hfold : ∀ start : Nat, start < UInt64.size → sizes.foldlM
      (fun product size => if product * size < UInt64.size then some (product * size) else none)
      start = some v → v = start * volume sizes ∧ v < UInt64.size := by
    clear h
    induction sizes with
    | nil =>
        intro start hfits hstart
        obtain rfl := Option.some.inj hstart
        exact ⟨(Nat.mul_one start).symm, hfits⟩
    | cons size rest ih =>
        intro start _ hstart
        rw [List.foldlM_cons] at hstart
        split at hstart
        · next hfits =>
          obtain ⟨hvolume, hword⟩ := ih _ hfits hstart
          exact ⟨by rw [hvolume, volume, Nat.mul_assoc], hword⟩
        · cases hstart
  obtain ⟨hvolume, hword⟩ := hfold 1 (by decide) h
  exact ⟨by rw [hvolume, Nat.one_mul], hword⟩

/-- The length of a payload, where it is known, is the number of elements times their size. -/
theorem TensorType.byteLength?_eq_some {t : TensorType} {n : Nat} (h : t.byteLength? = some n) :
    ∃ sizes, t.shape.sizes? = some sizes ∧ n = wordVolume sizes * t.element.sizeInBytes := by
  obtain ⟨count, hcount, hfits⟩ := Option.bind_eq_some_iff.1 h
  obtain ⟨sizes, hsizes, hchecked⟩ := Option.bind_eq_some_iff.1 hcount
  obtain ⟨rfl, hword⟩ := checkedVolume_eq_some hchecked
  rw [← wordVolume_eq_volume_iff.2 hword] at hfits
  split at hfits
  · exact ⟨sizes, hsizes, (Option.some.inj hfits).symm⟩
  · cases hfits

theorem ElementType.sizeInBytes_pos (t : ElementType) : 0 < t.sizeInBytes := by
  cases t <;> decide

namespace Elements

/-- The elements in order, each with its least significant byte first. -/
def toBytes : Elements → List UInt8
  | f32 values => values.toList.flatMap Bytes.ofBinary32
  | i32 values => values.toList.flatMap Bytes.ofInt32
  | i64 values => values.toList.flatMap Bytes.ofInt64

theorem length_toBytes (elements : Elements) :
    elements.toBytes.length = elements.size * elements.element.sizeInBytes := by
  cases elements with
  | f32 values => exact Bytes.cuts_binary32.length_flatMap values.toList
  | i32 values => exact Bytes.cuts_int32.length_flatMap values.toList
  | i64 values => exact Bytes.cuts_int64.length_flatMap values.toList

/-- The whole elements at the front of a payload, for the element types that tensors have. -/
def ofBytes? (type : ElementType) (bytes : List UInt8) : Option Elements :=
  match type with
  | .f32 => some (.f32 ((Bytes.words32 bytes).map Binary32.mk).toArray)
  | .i32 => some (.i32 ((Bytes.words32 bytes).map UInt32.toInt32).toArray)
  | .i64 => some (.i64 ((Bytes.words64 bytes).map UInt64.toInt64).toArray)
  | _ => none

/-- A payload holds elements when it is made of their bytes and less than one element more. -/
theorem ofBytes?_eq_some_iff {type : ElementType} {bytes : List UInt8} {elements : Elements} :
    ofBytes? type bytes = some elements ↔ type = elements.element ∧
      ∃ surplus, bytes = elements.toBytes ++ surplus ∧
        surplus.length < elements.element.sizeInBytes := by
  have hlist {α : Type} (values : Array α) (words : List α) :
      words.toArray = values ↔ words = values.toList := by
    rw [← Array.toList_inj]
  cases elements with
  | f32 values =>
      cases type with
      | f32 =>
          have hcut := Bytes.cuts_binary32.cut_eq_iff (by decide) bytes values.toList
          simpa [ofBytes?, element, toBytes, ElementType.sizeInBytes, hlist] using hcut
      | _ => simp [ofBytes?, element]
  | i32 values =>
      cases type with
      | i32 =>
          have hcut := Bytes.cuts_int32.cut_eq_iff (by decide) bytes values.toList
          simpa [ofBytes?, element, toBytes, ElementType.sizeInBytes, hlist] using hcut
      | _ => simp [ofBytes?, element]
  | i64 values =>
      cases type with
      | i64 =>
          have hcut := Bytes.cuts_int64.cut_eq_iff (by decide) bytes values.toList
          simpa [ofBytes?, element, toBytes, ElementType.sizeInBytes, hlist] using hcut
      | _ => simp [ofBytes?, element]

end Elements

namespace Tensor

variable {l : Literal} {t : Tensor}

/-- The element types that tensors have. -/
def elementTypes : List ElementType := [.f32, .i32, .i64]

theorem ofBytes?_eq_none_iff {type : ElementType} (bytes : List UInt8) :
    Elements.ofBytes? type bytes = none ↔ type ∉ elementTypes := by
  cases type <;> simp [Elements.ofBytes?, elementTypes]

/-- The tensor of a literal has the sizes of its shape and the whole elements of its payload. -/
theorem ofLiteral_eq_ok_iff_ofBytes? : ofLiteral l = .ok t ↔
    l.type.shape.sizes? = some t.sizes ∧
      Elements.ofBytes? l.type.element l.bytes = some t.elements := by
  rw [ofLiteral]
  cases l.type.shape.sizes? with
  | none => simp [failExecution]
  | some sizes =>
      rw [Option.some_inj, eq_comm (a := sizes)]
      cases l.type.element <;>
        simp [Elements.ofBytes?, new_eq_ok_iff, failUnimplemented, eq_comm (b := t.elements)]

/-- Which tensor a literal becomes: its payload is made of the bytes of the elements, and less than one
element more. -/
theorem ofLiteral_eq_ok_iff : ofLiteral l = .ok t ↔
    l.type.shape.sizes? = some t.sizes ∧ l.type.element = t.element ∧
      ∃ surplus, l.bytes = t.elements.toBytes ++ surplus ∧
        surplus.length < t.element.sizeInBytes := by
  rw [ofLiteral_eq_ok_iff_ofBytes?, Elements.ofBytes?_eq_some_iff]
  rfl

theorem length_toBytes (t : Tensor) :
    t.elements.toBytes.length = wordVolume t.sizes * t.element.sizeInBytes := by
  rw [Elements.length_toBytes, t.count_eq]
  rfl

/-- Which literals become tensors: the shape is static, tensors have the element type, and the payload
is long enough for the elements of the shape, counted in a word, but not for one more. -/
theorem exists_ofLiteral_iff : (∃ t, ofLiteral l = .ok t) ↔
    ∃ sizes, l.type.shape.sizes? = some sizes ∧ l.type.element ∈ elementTypes ∧
      wordVolume sizes * l.type.element.sizeInBytes ≤ l.bytes.length ∧
      l.bytes.length < (wordVolume sizes + 1) * l.type.element.sizeInBytes := by
  constructor
  · rintro ⟨t, ht⟩
    have hmem : l.type.element ∈ elementTypes := by
      by_contra hnot
      have hnone := (ofBytes?_eq_none_iff l.bytes).2 hnot
      rw [(ofLiteral_eq_ok_iff_ofBytes?.1 ht).2] at hnone
      cases hnone
    obtain ⟨hsizes, helement, surplus, hbytes, hsurplus⟩ := ofLiteral_eq_ok_iff.1 ht
    refine ⟨t.sizes, hsizes, hmem, ?_⟩
    rw [hbytes, List.length_append, length_toBytes, helement, Nat.succ_mul]
    omega
  · rintro ⟨sizes, hsizes, hmem, hle, hlt⟩
    obtain ⟨elements, helements⟩ :=
      Option.ne_none_iff_exists'.1 (mt (ofBytes?_eq_none_iff l.bytes).1 (not_not_intro hmem))
    obtain ⟨helement, surplus, hbytes, hsurplus⟩ := Elements.ofBytes?_eq_some_iff.1 helements
    have hcount : wordVolume sizes = elements.size := by
      have hlength := congrArg List.length hbytes
      rw [List.length_append, Elements.length_toBytes, ← helement] at hlength
      rw [← helement] at hsurplus
      -- both counts are the number of whole elements in the payload
      have hpos := l.type.element.sizeInBytes_pos
      rw [← Nat.div_eq_of_lt_le hle hlt, hlength, Nat.add_comm, Nat.add_mul_div_right _ _ hpos,
        Nat.div_eq_of_lt hsurplus, Nat.zero_add]
    exact ⟨⟨sizes, elements, hcount⟩, ofLiteral_eq_ok_iff_ofBytes?.2 ⟨hsizes, helements⟩⟩

/-- A literal becomes a tensor exactly when its shape is static, tensors have its element type, and its
payload is long enough for the elements of the shape, counted in a word, but not for one more. The
payload is then made of the bytes of the elements and less than one element more; and it is the bytes
of the elements exactly when it has the length that the type asks for. -/
theorem ofLiteral_iff_wholeElements (l : Literal) :
    ((∃ t, ofLiteral l = .ok t) ↔
      ∃ sizes, l.type.shape.sizes? = some sizes ∧ l.type.element ∈ elementTypes ∧
        wordVolume sizes * l.type.element.sizeInBytes ≤ l.bytes.length ∧
        l.bytes.length < (wordVolume sizes + 1) * l.type.element.sizeInBytes) ∧
    ∀ t, ofLiteral l = .ok t →
      l.type.shape.sizes? = some t.sizes ∧ l.type.element = t.element ∧
      (∃ surplus, l.bytes = t.elements.toBytes ++ surplus ∧
        surplus.length < t.element.sizeInBytes) ∧
      ∀ n, l.type.byteLength? = some n → (t.elements.toBytes = l.bytes ↔ l.bytes.length = n) := by
  refine ⟨exists_ofLiteral_iff, ?_⟩
  intro t ht
  obtain ⟨hsizes, helement, surplus, hbytes, hsurplus⟩ := ofLiteral_eq_ok_iff.1 ht
  refine ⟨hsizes, helement, ⟨surplus, hbytes, hsurplus⟩, ?_⟩
  intro n hn
  have hlength : t.elements.toBytes.length = n := by
    obtain ⟨sizes, hsizes', rfl⟩ := TensorType.byteLength?_eq_some hn
    obtain rfl : t.sizes = sizes := Option.some.inj (hsizes.symm.trans hsizes')
    rw [length_toBytes, helement]
  constructor
  · intro hsame
    rw [← hsame, hlength]
  · intro hwhole
    have hfront : t.elements.toBytes <+: l.bytes := ⟨surplus, hbytes.symm⟩
    exact hfront.eq_of_length (hlength.trans hwhole.symm)

section Surplus

/-- The number one, with a byte behind it that belongs to nothing. -/
def trailed : Literal := ⟨.ofSizes .f32 [1], [0, 0, 0x80, 0x3f, 0xff]⟩

/-- The tensor that it becomes. -/
def single : Tensor := ⟨[1], .f32 #[.one], rfl⟩

/-- The byte at the end is lost without an error. -/
theorem ofLiteral_trailed :
    ofLiteral trailed = .ok single ∧ trailed.bytes ≠ single.elements.toBytes ∧
      ∃ surplus, trailed.bytes = single.elements.toBytes ++ surplus ∧ surplus.length < 4 := by
  have hread : ofLiteral trailed = .ok single := by decide
  obtain ⟨-, -, hsurplus, hexact⟩ := (ofLiteral_iff_wholeElements trailed).2 single hread
  refine ⟨hread, ?_, hsurplus⟩
  intro hsame
  exact absurd ((hexact 4 (by decide)).1 hsame.symm) (by decide)

/-- The literal becomes a tensor, although its payload does not have the length that its type asks
for. -/
theorem exists_ofLiteral_trailed :
    (∃ t, ofLiteral trailed = .ok t) ∧
      trailed.type.byteLength? = some 4 ∧ trailed.bytes.length = 5 :=
  ⟨⟨single, by decide⟩, by decide, rfl⟩

end Surplus

end Tensor

end TensorLowering
