import TensorLowering.Json.Value

/-! # Records in documents

A record with declared fields is written as an object, or as an array of its fields in declaration
order. In an object, unknown members are passed over and a declared member may occur once. In an
array, surplus entries are refused and missing ones are missing at the end. -/

namespace TensorLowering.Json

/-- What a document holds for each declared field, and whether it was written by position. -/
structure Record where
  positional : Bool
  slots : List (Option Value)

/-- Reads the declared fields of a record. -/
def Value.record? (names : List String) : Value → Option Record
  | .array items =>
    if items.length ≤ names.length then
      some ⟨true, items.map some ++ List.replicate (names.length - items.length) none⟩
    else none
  | .object members =>
    if names.all fun name => (members.filter fun m => m.1 == name).length ≤ 1 then
      some ⟨false, names.map fun name => members.lookup name⟩
    else none
  | _ => none

namespace Record

/-- What stands in the field with the given number. -/
def slot (r : Record) (index : Nat) : Option Value := (r.slots[index]?).join

/-- A field that must be there. -/
def required {α : Type} (r : Record) (index : Nat) (read : Value → Option α) : Option α :=
  (r.slot index).bind read

/-- A field that has a value of its own when it is missing. -/
def defaulted {α : Type} (r : Record) (index : Nat) (read : Value → Option α) (value : α) : Option α :=
  match r.slot index with
  | some v => read v
  | none => some value

/-- A field that may be `null`, and that may be left out when fields are written by name. -/
def nullable {α : Type} (r : Record) (index : Nat) (read : Value → Option α) : Option (Option α) :=
  match r.slot index with
  | some v => v.option? read
  | none => if r.positional then none else some none

end Record

end TensorLowering.Json
