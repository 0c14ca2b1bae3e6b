import Mathlib.Data.List.Nodup
import TensorLowering.Json.Record
import TensorLowering.Proofs.Json.RoundTrip

/-!
# Fields read back

What a type writes into documents it reads back, field by field: numbers in the range of their
words, texts, lists, optional values and records.

## Implementation notes

`Recovers` has both halves that the text of a value needs: the value has a text at all, and reading
the value gives back what was written. The lemmas build it for a list from its items and for a record
from its fields, so a type needs one lemma of its own.

## Main statements

* `Json.Recovers.survives`: what is recovered from its value is recovered from its text.
* `Json.record?_zip`: a record has the fields that its object was written with.
* `Json.Recovers.record`: a record is recovered when its fields are.
-/

namespace TensorLowering.Json

variable {α : Type} {write : α → Value} {read : Value → Option α} {a : α}

/-- The text of what is written holds what was written. -/
def Survives (write : α → Value) (read : Value → Option α) (a : α) : Prop :=
  (parse? (compact (write a))).bind read = some a

/-- What is written has a text, and is read back. -/
structure Recovers (write : α → Value) (read : Value → Option α) (a : α) : Prop where
  written : (write a).Written
  read_write : read (write a) = some a

theorem Recovers.survives (h : Recovers write read a) : Survives write read a := by
  rw [Survives, parse?_compact h.written, Option.bind_some, h.read_write]

namespace Recovers

theorem bool (b : Bool) : Recovers .bool Value.bool? b := ⟨.bool b, rfl⟩

theorem string (s : String) : Recovers .string Value.string? s := ⟨.string s, rfl⟩

theorem nat {n : Nat} (h : n < wordLimit) : Recovers .nat Value.nat? n where
  written := .number (.ofNat n)
  read_write := by
    rw [Value.nat, Value.nat?, Number.natural?, Number.ofNat, digitsValue_toDigits]
    exact if_pos h

theorem byte (b : UInt8) : Recovers (fun b => .nat b.toNat) Value.byte? b where
  written := .number (.ofNat b.toNat)
  read_write := by
    have hbyte : b.toNat < 256 := b.toNat_lt
    have hword : b.toNat < wordLimit := Nat.lt_trans hbyte (by decide)
    rw [Value.byte?, (nat hword).read_write, Option.bind_some, if_pos hbyte, Nat.toUInt8_eq,
      UInt8.ofNat_toNat]

/-- Every signed word is read back, also the smallest, whose digits are too large without a sign. -/
theorem int (n : Int64) : Recovers (fun n => .int n.toInt) Value.int? n where
  written := .number (.ofInt n.toInt)
  read_write := by
    have hlow := n.le_toInt
    have hhigh := n.toInt_lt
    have hlimit : signedLimit = 2 ^ 63 := rfl
    rw [Value.int, Value.int?, Number.integer?, Number.ofInt]
    simp only [digitsValue_toDigits, decide_eq_true_eq]
    by_cases hsign : n.toInt < 0
    · have habs : -(n.toInt.natAbs : Int) = n.toInt := by omega
      rw [if_pos hsign, if_pos (by omega), habs, Int64.ofInt_toInt]
    · have habs : (n.toInt.natAbs : Int) = n.toInt := by omega
      rw [if_neg hsign, if_pos (by omega), ← Int64.ofInt_eq_ofNat, habs, Int64.ofInt_toInt]

end Recovers

theorem mapM_map_eq_some {β : Type} {write : α → β} {read : β → Option α} {as : List α}
    (h : ∀ a ∈ as, read (write a) = some a) : (as.map write).mapM read = some as := by
  induction as with
  | nil => rfl
  | cons a as ih =>
      rw [List.map_cons, List.mapM_cons, h a List.mem_cons_self,
        ih fun b hb => h b (List.mem_cons_of_mem _ hb)]
      rfl

theorem Recovers.list (as : List α) (h : ∀ a ∈ as, Recovers write read a) :
    Recovers (fun as => .array (as.map write)) (Value.list? read) as where
  written := by
    apply Value.Written.array
    intro item hitem
    obtain ⟨a, ha, rfl⟩ := List.mem_map.1 hitem
    exact (h a ha).written
  read_write := mapM_map_eq_some fun a ha => (h a ha).read_write

theorem Recovers.bytes (bs : List UInt8) :
    Recovers (fun bs => .nats (bs.map UInt8.toNat)) (Value.list? Value.byte?) bs := by
  have hbytes := Recovers.list bs fun b _ => Recovers.byte b
  constructor
  · rw [Value.nats, List.map_map]
    exact hbytes.written
  · rw [Value.nats, List.map_map]
    exact hbytes.read_write

theorem Recovers.option {o : Option α} (hnull : ∀ a, write a ≠ .null)
    (h : ∀ a ∈ o, Recovers write read a) :
    Recovers (Value.option write) (Value.option? read) o := by
  cases o with
  | none => exact ⟨.null, rfl⟩
  | some a =>
      refine ⟨(h a rfl).written, ?_⟩
      rw [Value.option, Value.option?, (h a rfl).read_write, Option.map_some]
      exact hnull a

/-- A variant is recovered with its payload. -/
theorem Recovers.variant {β : Type} {write' : β → Value} {read' : Value → Option β} {wrap : α → β}
    (tag : String) (hwrite : write' (wrap a) = .tagged tag (write a))
    (hread : ∀ v, read' (.tagged tag v) = (read v).map wrap) (h : Recovers write read a) :
    Recovers write' read' (wrap a) where
  written := by
    rw [hwrite]
    apply Value.Written.object
    intro m hm
    rw [List.mem_singleton.1 hm]
    exact h.written
  read_write := by rw [hwrite, hread, h.read_write, Option.map_some]

/-! ## Records -/

/-- A record that has a value for every declared field. -/
def Record.ofValues (values : List Value) : Record := ⟨false, values.map some⟩

theorem slot_ofValues (values : List Value) (index : Nat) :
    (Record.ofValues values).slot index = values[index]? := by
  rw [Record.slot, Record.ofValues, List.getElem?_map]
  cases values[index]? <;> rfl

theorem required_ofValues (values : List Value) (index : Nat) (read : Value → Option α) :
    (Record.ofValues values).required index read = values[index]?.bind read := by
  rw [Record.required, slot_ofValues]

theorem nullable_ofValues {values : List Value} {index : Nat} (h : index < values.length)
    (read : Value → Option α) :
    (Record.ofValues values).nullable index read = values[index].option? read := by
  rw [Record.nullable, slot_ofValues, List.getElem?_eq_getElem h]

variable {names : List String} {values : List Value}

theorem map_lookup_zip (hnodup : names.Nodup) (hlength : values.length = names.length) :
    (names.map fun name => (names.zip values).lookup name) = values.map some := by
  induction names generalizing values with
  | nil => rw [List.length_eq_zero_iff.1 hlength]; rfl
  | cons name names ih =>
      obtain ⟨hfresh, hnodup⟩ := List.nodup_cons.1 hnodup
      obtain ⟨v, values, rfl⟩ := List.exists_cons_of_length_eq_add_one hlength
      rw [List.zip_cons_cons, List.map_cons, List.map_cons, List.lookup_cons_self,
        ← ih hnodup (Nat.succ.inj hlength)]
      refine congrArg _ (List.map_congr_left fun other hother => ?_)
      have hne : (other == name) = false := by
        rw [beq_eq_false_iff_ne]
        rintro rfl
        exact hfresh hother
      rw [List.lookup_cons, hne]

/-- Fields written under different names are read by their names. -/
theorem record?_zip (hnodup : names.Nodup) (hlength : values.length = names.length) :
    (Value.object (names.zip values)).record? names = some (.ofValues values) := by
  have honce : names.all fun name =>
      ((names.zip values).filter fun m => m.1 == name).length ≤ 1 := by
    rw [List.all_eq_true]
    intro name _
    have hcount := List.nodup_iff_count_le_one.1 hnodup name
    rw [← List.map_fst_zip (Nat.le_of_eq hlength.symm), List.count, List.countP_map,
      List.countP_eq_length_filter] at hcount
    exact decide_eq_true hcount
  rw [Value.record?, if_pos honce, map_lookup_zip hnodup hlength, Record.ofValues]

/-- A record is recovered when its fields have texts and are read back one by one. -/
theorem Recovers.record (names : List String) (values : List Value) {fields : Record → Option α}
    (hread : ∀ v, read v = (v.record? names).bind fields)
    (hwrite : write a = .object (names.zip values)) (hnodup : names.Nodup)
    (hlength : values.length = names.length) (hwritten : ∀ v ∈ values, v.Written)
    (hfields : fields (.ofValues values) = some a) : Recovers write read a where
  written := by
    rw [hwrite]
    apply Value.Written.object
    intro m hm
    exact hwritten m.2 (List.of_mem_zip hm).2
  read_write := by rw [hread, hwrite, record?_zip hnodup hlength, Option.bind_some, hfields]

/-- A record with one field. -/
theorem Recovers.single {β : Type} {write' : β → Value} {read' : Value → Option β} (name : String)
    (wrap : α → β) (h : Recovers write read a) (hwrite : write' (wrap a) = .object [(name, write a)])
    (hread : ∀ v, read' v = (v.record? [name]).bind fun r =>
      (r.required 0 read).bind fun a => some (wrap a)) : Recovers write' read' (wrap a) := by
  refine Recovers.record [name] [write a] hread hwrite (List.nodup_singleton name) rfl
    ?written ?fields
  case written => exact List.forall_mem_singleton.2 h.written
  case fields =>
    rw [required_ofValues, List.getElem?_cons_zero, Option.bind_some, h.read_write,
      Option.bind_some]

/-- A record with two fields. -/
theorem Recovers.pair {β γ : Type} {write₂ : β → Value} {read₂ : Value → Option β} {b : β}
    {write' : γ → Value} {read' : Value → Option γ} (name name₂ : String) (wrap : α → β → γ)
    (hne : name ≠ name₂) (h : Recovers write read a) (h₂ : Recovers write₂ read₂ b)
    (hwrite : write' (wrap a b) = .object [(name, write a), (name₂, write₂ b)])
    (hread : ∀ v, read' v = (v.record? [name, name₂]).bind fun r =>
      (r.required 0 read).bind fun a => (r.required 1 read₂).bind fun b => some (wrap a b)) :
    Recovers write' read' (wrap a b) := by
  refine Recovers.record [name, name₂] [write a, write₂ b] hread hwrite ?nodup rfl ?written ?fields
  case nodup => exact List.nodup_cons.2 ⟨mt List.mem_singleton.1 hne, List.nodup_singleton name₂⟩
  case written =>
    simp only [List.forall_mem_cons]
    exact ⟨h.written, h₂.written, List.forall_mem_nil _⟩
  case fields =>
    simp only [required_ofValues, List.getElem?_cons_zero, List.getElem?_cons_succ,
      Option.bind_some, h.read_write, h₂.read_write]

end TensorLowering.Json
