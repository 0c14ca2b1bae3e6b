import Mathlib.Data.List.Basic
import TensorLowering.Primitive.Encoding

/-!
# Bytes can be read in one way

The bytes of a primitive have no separators. They still have a unique reading: an encoding can be cut
off the front of longer bytes in one way only, as long as every length and every number fits the
eight bytes that it gets.

## Implementation notes

`Encoding.PrefixFree` is the property that is carried through the records. A proof of it for a record
cuts off one field after the other, so a field that was left out of the bytes would be missed here.
The variants of a payload are told apart by their numbers first (`Encoding.payload_eq`).

## Main statements

* `Encoding.prefixFree_list`: lists of items that can be cut off can be cut off.
* `Encoding.prefixFree_primitive`: so can primitives.
-/

namespace TensorLowering

/-- A number that fits eight bytes. -/
def FitsWord (n : Nat) : Prop := n < UInt64.size

instance : DecidablePred FitsWord := fun n => inferInstanceAs (Decidable (n < UInt64.size))

/-- A list whose length fits eight bytes, of items that fit. -/
def ListFits {α : Type} (fits : α → Prop) (items : List α) : Prop :=
  FitsWord items.length ∧ ∀ a ∈ items, fits a

instance {α : Type} {fits : α → Prop} [DecidablePred fits] : DecidablePred (ListFits fits) :=
  fun items => inferInstanceAs (Decidable (FitsWord items.length ∧ ∀ a ∈ items, fits a))

/-- A text whose number of bytes fits eight bytes. -/
def StringFits (s : String) : Prop := FitsWord s.utf8ByteSize

instance : DecidablePred StringFits := fun s =>
  inferInstanceAs (Decidable (FitsWord s.utf8ByteSize))

/-- An extent whose number, or whose symbol, fits. -/
def Extent.Fits : Extent → Prop
  | fixed size => FitsWord size
  | symbolic symbol => StringFits symbol

instance : DecidablePred Extent.Fits
  | .fixed size => inferInstanceAs (Decidable (FitsWord size))
  | .symbolic symbol => inferInstanceAs (Decidable (StringFits symbol))

/-- A tensor type whose extents fit. -/
def TensorType.Fits (t : TensorType) : Prop := ListFits Extent.Fits t.shape.extents

instance : DecidablePred TensorType.Fits := fun t =>
  inferInstanceAs (Decidable (ListFits Extent.Fits t.shape.extents))

/-- A literal of a type that fits, whose number of bytes does. -/
structure Literal.Fits (l : Literal) : Prop where
  type : l.type.Fits
  bytes : FitsWord l.bytes.length

instance : DecidablePred Literal.Fits := fun l =>
  decidable_of_iff (l.type.Fits ∧ FitsWord l.bytes.length)
    ⟨fun h => ⟨h.1, h.2⟩, fun h => ⟨h.type, h.bytes⟩⟩

/-- The settings of a product of ranks that fit. -/
structure GemmSpec.Fits (s : GemmSpec) : Prop where
  inputRank : FitsWord s.inputRank
  weightRank : FitsWord s.weightRank

instance : DecidablePred GemmSpec.Fits := fun s =>
  decidable_of_iff (FitsWord s.inputRank ∧ FitsWord s.weightRank)
    ⟨fun h => ⟨h.1, h.2⟩, fun h => ⟨h.inputRank, h.weightRank⟩⟩

/-- A kernel whose texts and sizes fit. -/
structure KernelSpec.Fits (k : KernelSpec) : Prop where
  entryPoint : StringFits k.entryPoint
  source : StringFits k.source
  buildOptions : StringFits k.buildOptions
  globalWorkSize : ListFits FitsWord k.globalWorkSize
  localWorkSize : ListFits FitsWord k.localWorkSize
  output : k.output.Fits

instance : DecidablePred KernelSpec.Fits := fun k =>
  decidable_of_iff
    (StringFits k.entryPoint ∧ StringFits k.source ∧ StringFits k.buildOptions ∧
      ListFits FitsWord k.globalWorkSize ∧ ListFits FitsWord k.localWorkSize ∧ k.output.Fits)
    ⟨fun ⟨he, hs, ho, hg, hl, ht⟩ => ⟨he, hs, ho, hg, hl, ht⟩, fun ⟨he, hs, ho, hg, hl, ht⟩ =>
      ⟨he, hs, ho, hg, hl, ht⟩⟩

/-- A payload whose parts fit. -/
def Payload.Fits : Payload → Prop
  | inputLayout type => type.Fits
  | data literal => literal.Fits
  | gemm spec => spec.Fits
  | permute order => ListFits FitsWord order
  | reshape sizes => ∀ s ∈ sizes, ListFits FitsWord s
  | reduce _ axes _ => ListFits FitsWord axes
  | crop axis offset length => FitsWord axis ∧ FitsWord offset ∧ FitsWord length
  | concatenation axis => FitsWord axis
  | customKernel spec => spec.Fits
  | reorder _ | eltwise .. | activation _ | fullyConnected .. => True

instance : DecidablePred Payload.Fits
  | .inputLayout type => inferInstanceAs (Decidable type.Fits)
  | .data literal => inferInstanceAs (Decidable literal.Fits)
  | .gemm spec => inferInstanceAs (Decidable spec.Fits)
  | .permute order => inferInstanceAs (Decidable (ListFits FitsWord order))
  | .reshape sizes => inferInstanceAs (Decidable (∀ s ∈ sizes, ListFits FitsWord s))
  | .reduce _ axes _ => inferInstanceAs (Decidable (ListFits FitsWord axes))
  | .crop axis offset length =>
    inferInstanceAs (Decidable (FitsWord axis ∧ FitsWord offset ∧ FitsWord length))
  | .concatenation axis => inferInstanceAs (Decidable (FitsWord axis))
  | .customKernel spec => inferInstanceAs (Decidable spec.Fits)
  | .reorder _ | .eltwise .. | .activation _ | .fullyConnected .. =>
    inferInstanceAs (Decidable True)

/-- An output of a primitive whose name and number fit. -/
structure Source.Fits (s : Source) : Prop where
  id : StringFits s.id
  output : FitsWord s.output

instance : DecidablePred Source.Fits := fun s =>
  decidable_of_iff (StringFits s.id ∧ FitsWord s.output)
    ⟨fun h => ⟨h.1, h.2⟩, fun h => ⟨h.id, h.output⟩⟩

/-- A primitive whose parts fit. -/
structure Primitive.Fits (p : Primitive) : Prop where
  id : StringFits p.id
  payload : p.payload.Fits
  inputs : ListFits Source.Fits p.inputs
  originName : StringFits p.originName
  originType : StringFits p.originType

instance : DecidablePred Primitive.Fits := fun p =>
  decidable_of_iff
    (StringFits p.id ∧ p.payload.Fits ∧ ListFits Source.Fits p.inputs ∧ StringFits p.originName ∧
      StringFits p.originType)
    ⟨fun ⟨hi, hp, hs, hn, ht⟩ => ⟨hi, hp, hs, hn, ht⟩, fun ⟨hi, hp, hs, hn, ht⟩ =>
      ⟨hi, hp, hs, hn, ht⟩⟩

/-- The number of the variant of a payload. -/
def Payload.code : Payload → Nat
  | inputLayout _ => 0
  | data _ => 1
  | reorder _ => 2
  | eltwise .. => 3
  | activation _ => 4
  | gemm _ => 5
  | permute _ => 6
  | reshape _ => 7
  | reduce .. => 8
  | crop .. => 9
  | concatenation _ => 10
  | fullyConnected .. => 11
  | customKernel _ => 12

theorem Payload.code_lt (p : Payload) : p.code < 256 := by
  cases p <;> simp only [code] <;> decide

namespace Encoding

open Bytes

variable {α : Type}

/-- Of the values that fit, an encoding can be cut off the front of longer bytes in one way only. -/
def PrefixFree (fits : α → Prop) (encode : α → List UInt8) : Prop :=
  ∀ ⦃a b : α⦄, fits a → fits b → ∀ ⦃xs ys : List UInt8⦄,
    encode a ++ xs = encode b ++ ys → a = b ∧ xs = ys

/-- An encoding of a fixed length is cut off at that length. -/
theorem PrefixFree.of_length {fits : α → Prop} {encode : α → List UInt8} (count : Nat)
    (hlength : ∀ a, (encode a).length = count)
    (hinjective : ∀ a b, fits a → fits b → encode a = encode b → a = b) :
    PrefixFree fits encode := by
  intro a b ha hb xs ys h
  obtain ⟨hfront, hback⟩ := List.append_inj h ((hlength a).trans (hlength b).symm)
  exact ⟨hinjective a b ha hb hfront, hback⟩

theorem prefixFree_littleEndian (count : Nat) :
    PrefixFree (· < Nat.pow 256 count) (littleEndian count) := by
  apply PrefixFree.of_length count (length_littleEndian count)
  intro m n hm hn h
  have hread := congrArg toNat h
  rwa [toNat_littleEndian, toNat_littleEndian, Nat.mod_eq_of_lt hm, Nat.mod_eq_of_lt hn] at hread

theorem prefixFree_nat : PrefixFree FitsWord nat := prefixFree_littleEndian 8

theorem prefixFree_variant : PrefixFree (· < 256) variant := by
  have hle : 256 ≤ Nat.pow 256 4 := by decide
  intro m n hm hn
  exact prefixFree_littleEndian 4 (Nat.lt_of_lt_of_le hm hle) (Nat.lt_of_lt_of_le hn hle)

theorem prefixFree_bool : PrefixFree (fun _ => True) bool := by
  apply PrefixFree.of_length 1 (fun _ => rfl)
  intro a b _ _
  cases a <;> cases b <;> decide

theorem prefixFree_byte : PrefixFree (fun _ => True) (fun b : UInt8 => [b]) := by
  apply PrefixFree.of_length 1 (fun _ => rfl)
  intro a b _ _ h
  exact List.singleton_inj.1 h

/-- As many items as are left are cut off one after the other. -/
theorem PrefixFree.flatMap {fits : α → Prop} {item : α → List UInt8} (h : PrefixFree fits item)
    {as bs : List α} (hlength : as.length = bs.length) (has : ∀ a ∈ as, fits a)
    (hbs : ∀ b ∈ bs, fits b) {xs ys : List UInt8}
    (heq : as.flatMap item ++ xs = bs.flatMap item ++ ys) : as = bs ∧ xs = ys := by
  induction as generalizing bs with
  | nil =>
      obtain rfl : bs = [] := List.length_eq_zero_iff.1 hlength.symm
      exact ⟨rfl, heq⟩
  | cons a as ih =>
      cases bs with
      | nil => cases hlength
      | cons b bs =>
          obtain ⟨ha, hrestA⟩ := List.forall_mem_cons.1 has
          obtain ⟨hb, hrestB⟩ := List.forall_mem_cons.1 hbs
          rw [List.flatMap_cons, List.flatMap_cons, List.append_assoc, List.append_assoc] at heq
          obtain ⟨hfirst, heq⟩ := h ha hb heq
          obtain ⟨hothers, hback⟩ := ih (Nat.succ.inj hlength) hrestA hrestB heq
          exact ⟨congrArg₂ List.cons hfirst hothers, hback⟩

/-- The length in front of a list says how many items are to be cut off. -/
theorem prefixFree_list {fits : α → Prop} {item : α → List UInt8} (h : PrefixFree fits item) :
    PrefixFree (ListFits fits) (list item) := by
  intro as bs has hbs xs ys heq
  rw [list, list, List.append_assoc, List.append_assoc] at heq
  obtain ⟨hlength, heq⟩ := prefixFree_nat has.1 hbs.1 heq
  exact h.flatMap hlength has.2 hbs.2 heq

theorem prefixFree_bytes :
    PrefixFree (fun bs => FitsWord bs.length) (list fun b : UInt8 => [b]) := by
  intro as bs has hbs xs ys heq
  exact prefixFree_list prefixFree_byte ⟨has, fun _ _ => trivial⟩ ⟨hbs, fun _ _ => trivial⟩ heq

theorem prefixFree_option {fits : α → Prop} {item : α → List UInt8} (h : PrefixFree fits item) :
    PrefixFree (fun o => ∀ a ∈ o, fits a) (option item) := by
  intro o o' ho ho' xs ys heq
  cases o with
  | none =>
      cases o' with
      | none => exact ⟨rfl, (List.cons.inj heq).2⟩
      | some b => cases (List.cons.inj heq).1
  | some a =>
      cases o' with
      | none => cases (List.cons.inj heq).1
      | some b =>
          obtain ⟨rfl, hback⟩ := h (ho a rfl) (ho' b rfl) (List.cons.inj heq).2
          exact ⟨rfl, hback⟩

/-- The bytes of an array, taken out one by one, are its bytes. -/
theorem toList_eq_data (bs : ByteArray) : bs.toList = bs.data.toList := by
  have hloop : ∀ i read, ByteArray.toList.loop bs i read =
      read.reverse ++ bs.data.toList.drop i := by
    intro i read
    induction i, read using ByteArray.toList.loop.induct bs with
    | case1 i read hlt ih =>
        have hi : i < bs.data.size := hlt
        have hget : bs.get! i = bs.data.toList[i] := getElem!_pos bs.data i hi
        rw [ByteArray.toList.loop, if_pos hlt, ih, List.drop_eq_getElem_cons hi, hget]
        simp
    | case2 i read hge =>
        have hdone : bs.data.toList.length ≤ i := Nat.le_of_not_lt hge
        rw [ByteArray.toList.loop, if_neg hge, List.drop_eq_nil_of_le hdone, List.append_nil]
  rw [ByteArray.toList, hloop]
  rfl

theorem length_toUTF8 (s : String) : s.toUTF8.toList.length = s.utf8ByteSize := by
  rw [toList_eq_data]
  rfl

theorem prefixFree_string : PrefixFree StringFits string := by
  intro s t hs ht xs ys heq
  rw [StringFits, ← length_toUTF8] at hs ht
  obtain ⟨hbytes, hback⟩ := prefixFree_bytes hs ht heq
  rw [toList_eq_data, toList_eq_data, Array.toList_inj, ← ByteArray.ext_iff] at hbytes
  exact ⟨String.toByteArray_inj.1 hbytes, hback⟩

/-- Encodings that are the numbers of variants. -/
theorem PrefixFree.of_code {encode : α → List UInt8} (code : α → Nat)
    (hencode : ∀ a, encode a = variant (code a)) (hsmall : ∀ a, code a < 256)
    (hinjective : ∀ a b, code a = code b → a = b) : PrefixFree (fun _ => True) encode := by
  intro a b _ _ xs ys heq
  rw [hencode, hencode] at heq
  obtain ⟨hcode, hback⟩ := prefixFree_variant (hsmall a) (hsmall b) heq
  exact ⟨hinjective a b hcode, hback⟩

theorem prefixFree_element : PrefixFree (fun _ => True) element := by
  apply PrefixFree.of_code ElementType.code (fun _ => rfl)
  · intro t
    cases t <;> decide
  · intro t t'
    cases t <;> cases t' <;> decide

theorem prefixFree_eltwiseMode : PrefixFree (fun _ => True) eltwiseMode := by
  apply PrefixFree.of_length 4
  · intro mode
    cases mode <;> rfl
  · intro mode mode' _ _
    cases mode <;> cases mode' <;> decide

theorem prefixFree_activationFunction : PrefixFree (fun _ => True) activationFunction := by
  apply PrefixFree.of_length 4 (fun _ => rfl)
  intro f f' _ _ _
  cases f
  cases f'
  rfl

theorem prefixFree_reduceMode : PrefixFree (fun _ => True) reduceMode := by
  apply PrefixFree.of_length 4
  · intro mode
    cases mode <;> rfl
  · intro mode mode' _ _
    cases mode <;> cases mode' <;> decide

theorem prefixFree_binary32 : PrefixFree (fun _ => True) ofBinary32 := by
  intro x y _ _ xs ys heq
  obtain ⟨hbits, hback⟩ := prefixFree_littleEndian 4 x.bits.toNat_lt y.bits.toNat_lt heq
  cases x
  cases y
  exact ⟨congrArg Numeric.Binary32.mk (UInt32.toNat_inj.1 hbits), hback⟩

theorem prefixFree_extent : PrefixFree Extent.Fits extent := by
  have hvariants : ∀ {bs cs : List UInt8}, variant 0 ++ bs ≠ variant 1 ++ cs := by
    intro bs cs heq
    cases (prefixFree_variant (by decide) (by decide) heq).1
  intro e e' he he' xs ys heq
  cases e <;> cases e' <;> simp only [extent, List.append_assoc] at heq
  case fixed.fixed size size' =>
    obtain ⟨rfl, hback⟩ := prefixFree_nat he he' (List.append_cancel_left heq)
    exact ⟨rfl, hback⟩
  case fixed.symbolic => exact absurd heq hvariants
  case symbolic.fixed => exact absurd heq.symm hvariants
  case symbolic.symbolic symbol symbol' =>
    obtain ⟨rfl, hback⟩ := prefixFree_string he he' (List.append_cancel_left heq)
    exact ⟨rfl, hback⟩

theorem prefixFree_tensorType : PrefixFree TensorType.Fits tensorType := by
  rintro ⟨element, ⟨extents⟩⟩ ⟨element', ⟨extents'⟩⟩ ht ht' xs ys heq
  simp only [tensorType, List.append_assoc] at heq
  obtain ⟨helement, heq⟩ := prefixFree_element trivial trivial heq
  obtain ⟨hextents, hback⟩ := prefixFree_list prefixFree_extent ht ht' heq
  subst helement hextents
  exact ⟨rfl, hback⟩

theorem prefixFree_literal : PrefixFree Literal.Fits literal := by
  rintro ⟨type, bytes⟩ ⟨type', bytes'⟩ hl hl' xs ys heq
  simp only [literal, List.append_assoc] at heq
  obtain ⟨htype, heq⟩ := prefixFree_tensorType hl.type hl'.type heq
  obtain ⟨hbytes, hback⟩ := prefixFree_bytes hl.bytes hl'.bytes heq
  subst htype hbytes
  exact ⟨rfl, hback⟩

theorem prefixFree_gemmSpec : PrefixFree GemmSpec.Fits gemmSpec := by
  rintro ⟨element, transposeA, transposeB, alpha, beta, inputRank, weightRank⟩
    ⟨element', transposeA', transposeB', alpha', beta', inputRank', weightRank'⟩ hs hs' xs ys heq
  simp only [gemmSpec, List.append_assoc] at heq
  obtain ⟨helement, heq⟩ := prefixFree_element trivial trivial heq
  obtain ⟨htransposeA, heq⟩ := prefixFree_bool trivial trivial heq
  obtain ⟨htransposeB, heq⟩ := prefixFree_bool trivial trivial heq
  obtain ⟨halpha, heq⟩ := prefixFree_binary32 trivial trivial heq
  obtain ⟨hbeta, heq⟩ := prefixFree_binary32 trivial trivial heq
  obtain ⟨hinputRank, heq⟩ := prefixFree_nat hs.inputRank hs'.inputRank heq
  obtain ⟨hweightRank, hback⟩ := prefixFree_nat hs.weightRank hs'.weightRank heq
  subst helement htransposeA htransposeB halpha hbeta hinputRank hweightRank
  exact ⟨rfl, hback⟩

theorem prefixFree_kernelSpec : PrefixFree KernelSpec.Fits kernelSpec := by
  rintro ⟨entryPoint, source, options, globals, locals, output⟩
    ⟨entryPoint', source', options', globals', locals', output'⟩ hk hk' xs ys heq
  simp only [kernelSpec, List.append_assoc] at heq
  obtain ⟨hentryPoint, heq⟩ := prefixFree_string hk.entryPoint hk'.entryPoint heq
  obtain ⟨hsource, heq⟩ := prefixFree_string hk.source hk'.source heq
  obtain ⟨hoptions, heq⟩ := prefixFree_string hk.buildOptions hk'.buildOptions heq
  obtain ⟨hglobals, heq⟩ :=
    prefixFree_list prefixFree_nat hk.globalWorkSize hk'.globalWorkSize heq
  obtain ⟨hlocals, heq⟩ := prefixFree_list prefixFree_nat hk.localWorkSize hk'.localWorkSize heq
  obtain ⟨houtput, hback⟩ := prefixFree_tensorType hk.output hk'.output heq
  subst hentryPoint hsource hoptions hglobals hlocals houtput
  exact ⟨rfl, hback⟩

theorem prefixFree_source : PrefixFree Source.Fits source := by
  rintro ⟨id, output⟩ ⟨id', output'⟩ hs hs' xs ys heq
  simp only [source, List.append_assoc] at heq
  obtain ⟨hid, heq⟩ := prefixFree_string hs.id hs'.id heq
  obtain ⟨houtput, hback⟩ := prefixFree_nat hs.output hs'.output heq
  subst hid houtput
  exact ⟨rfl, hback⟩

/-- The bytes of a payload behind its number. -/
def fields : Payload → List UInt8
  | .inputLayout type => tensorType type
  | .data l => literal l
  | .reorder t => element t
  | .eltwise mode t => eltwiseMode mode ++ element t
  | .activation function => activationFunction function
  | .gemm spec => gemmSpec spec
  | .permute order => list nat order
  | .reshape sizes => option (list nat) sizes
  | .reduce mode axes keepDims => reduceMode mode ++ list nat axes ++ bool keepDims
  | .crop axis offset length => nat axis ++ nat offset ++ nat length
  | .concatenation axis => nat axis
  | .fullyConnected compressed hasZeroPoint t => bool compressed ++ bool hasZeroPoint ++ element t
  | .customKernel spec => kernelSpec spec

/-- The bytes of a payload start with a number that tells the variants apart. -/
theorem payload_eq (p : Payload) : payload p = variant p.code ++ fields p := by
  cases p <;> simp only [payload, fields, Payload.code, List.append_assoc]

theorem prefixFree_payload : PrefixFree Payload.Fits payload := by
  intro p p' hp hp' xs ys heq
  rw [payload_eq, payload_eq, List.append_assoc, List.append_assoc] at heq
  obtain ⟨hcode, heq⟩ := prefixFree_variant p.code_lt p'.code_lt heq
  -- Of two variants, only those with one number are left, which are the same.
  cases p <;> cases p' <;> cases hcode <;> simp only [fields, List.append_assoc] at heq
  case inputLayout.inputLayout =>
    obtain ⟨rfl, hback⟩ := prefixFree_tensorType hp hp' heq
    exact ⟨rfl, hback⟩
  case data.data =>
    obtain ⟨rfl, hback⟩ := prefixFree_literal hp hp' heq
    exact ⟨rfl, hback⟩
  case reorder.reorder =>
    obtain ⟨rfl, hback⟩ := prefixFree_element trivial trivial heq
    exact ⟨rfl, hback⟩
  case eltwise.eltwise =>
    obtain ⟨hmode, heq⟩ := prefixFree_eltwiseMode trivial trivial heq
    obtain ⟨helement, hback⟩ := prefixFree_element trivial trivial heq
    exact ⟨congrArg₂ Payload.eltwise hmode helement, hback⟩
  case activation.activation =>
    obtain ⟨rfl, hback⟩ := prefixFree_activationFunction trivial trivial heq
    exact ⟨rfl, hback⟩
  case gemm.gemm =>
    obtain ⟨rfl, hback⟩ := prefixFree_gemmSpec hp hp' heq
    exact ⟨rfl, hback⟩
  case permute.permute =>
    obtain ⟨rfl, hback⟩ := prefixFree_list prefixFree_nat hp hp' heq
    exact ⟨rfl, hback⟩
  case reshape.reshape =>
    obtain ⟨rfl, hback⟩ := prefixFree_option (prefixFree_list prefixFree_nat) hp hp' heq
    exact ⟨rfl, hback⟩
  case reduce.reduce =>
    obtain ⟨hmode, heq⟩ := prefixFree_reduceMode trivial trivial heq
    obtain ⟨haxes, heq⟩ := prefixFree_list prefixFree_nat hp hp' heq
    obtain ⟨hkeepDims, hback⟩ := prefixFree_bool trivial trivial heq
    subst hmode haxes hkeepDims
    exact ⟨rfl, hback⟩
  case crop.crop =>
    obtain ⟨haxis, heq⟩ := prefixFree_nat hp.1 hp'.1 heq
    obtain ⟨hoffset, heq⟩ := prefixFree_nat hp.2.1 hp'.2.1 heq
    obtain ⟨hlength, hback⟩ := prefixFree_nat hp.2.2 hp'.2.2 heq
    subst haxis hoffset hlength
    exact ⟨rfl, hback⟩
  case concatenation.concatenation =>
    obtain ⟨rfl, hback⟩ := prefixFree_nat hp hp' heq
    exact ⟨rfl, hback⟩
  case fullyConnected.fullyConnected =>
    obtain ⟨hcompressed, heq⟩ := prefixFree_bool trivial trivial heq
    obtain ⟨hzeroPoint, heq⟩ := prefixFree_bool trivial trivial heq
    obtain ⟨helement, hback⟩ := prefixFree_element trivial trivial heq
    subst hcompressed hzeroPoint helement
    exact ⟨rfl, hback⟩
  case customKernel.customKernel =>
    obtain ⟨rfl, hback⟩ := prefixFree_kernelSpec hp hp' heq
    exact ⟨rfl, hback⟩

theorem prefixFree_primitive : PrefixFree Primitive.Fits primitive := by
  rintro ⟨id, payload, inputs, name, type⟩ ⟨id', payload', inputs', name', type'⟩ hp hp' xs ys heq
  simp only [primitive, List.append_assoc] at heq
  obtain ⟨hid, heq⟩ := prefixFree_string hp.id hp'.id heq
  obtain ⟨hpayload, heq⟩ := prefixFree_payload hp.payload hp'.payload heq
  obtain ⟨hinputs, heq⟩ := prefixFree_list prefixFree_source hp.inputs hp'.inputs heq
  obtain ⟨hname, heq⟩ := prefixFree_string hp.originName hp'.originName heq
  obtain ⟨htype, hback⟩ := prefixFree_string hp.originType hp'.originType heq
  subst hid hpayload hinputs hname htype
  exact ⟨rfl, hback⟩

end Encoding

end TensorLowering
