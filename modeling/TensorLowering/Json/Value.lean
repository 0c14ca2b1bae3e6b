import TensorLowering.Json.Number

/-! # Documents

The values of a JSON text. Members of an object keep their order and may repeat. A string whose
escapes do not form Unicode text is kept as such, because a reader that passes over it accepts it;
so is an object with such a string for a name. -/

namespace TensorLowering.Json

/-- A JSON value. -/
inductive Value where
  | null
  | bool (b : Bool)
  | number (n : Number)
  | string (s : String)
  /-- A string, or an object with a name, in which an escape stands for half a character. -/
  | malformed
  | array (items : List Value)
  | object (members : List (String × Value))
  deriving Repr

namespace Value

/-- The value of a natural number. -/
def nat (n : Nat) : Value := .number (.ofNat n)

/-- The value of an integer. -/
def int (n : Int) : Value := .number (.ofInt n)

/-- How 64-bit numbers are written in documents. -/
def style64 : Numeric.DecimalStyle := ⟨-5, 16, .toEven⟩

/-- How 32-bit numbers are written in documents. -/
def style32 : Numeric.DecimalStyle := ⟨-6, 13, .toEven⟩

/-- The value of a 64-bit number; there is none for infinities and NaN. -/
def float64 (x : Numeric.Binary64) : Value :=
  match x.decode with
  | .finite negative m q => .number (.ofNumeral (style64.numeral .binary64 negative m q))
  | _ => .null

/-- The value of a 32-bit number; there is none for infinities and NaN. -/
def float32 (x : Numeric.Binary32) : Value :=
  match x.decode with
  | .finite negative m q => .number (.ofNumeral (style32.numeral .binary32 negative m q))
  | _ => .null

/-- An array of naturals. -/
def nats (ns : List Nat) : Value := .array (ns.map nat)

/-- An array of strings. -/
def strings (ss : List String) : Value := .array (ss.map string)

/-- `null`, or the value of what is there. -/
def option {α : Type} (toValue : α → Value) : Option α → Value
  | some a => toValue a
  | none => .null

/-- An object with one member, the form of a variant with a payload. -/
def tagged (tag : String) (payload : Value) : Value := .object [(tag, payload)]

/-- The truth value, if it is one. -/
def bool? : Value → Option Bool
  | .bool b => some b
  | _ => none

/-- The text, if it is one. -/
def string? : Value → Option String
  | .string s => some s
  | _ => none

/-- The natural number, if it is one that fits a word. -/
def nat? : Value → Option Nat
  | .number n => n.natural?
  | _ => none

/-- The integer, if it is one that fits a signed word. -/
def int? : Value → Option Int64
  | .number n => n.integer?
  | _ => none

/-- The byte, if it is one. -/
def byte? (v : Value) : Option UInt8 :=
  v.nat?.bind fun n => if n < 256 then some n.toUInt8 else none

/-- The 64-bit number, if it is a number in range. -/
def float? : Value → Option Numeric.Binary64
  | .number n => n.float?
  | _ => none

/-- The items of an array, each read by `read`. -/
def list? {α : Type} (read : Value → Option α) : Value → Option (List α)
  | .array items => items.mapM read
  | _ => none

/-- Nothing for `null`, otherwise what `read` makes of the value. -/
def option? {α : Type} (read : Value → Option α) : Value → Option (Option α)
  | .null => some none
  | v => (read v).map some

/-- A variant: its tag, and its payload if it is written as an object with one member. -/
def variant? : Value → Option (String × Option Value)
  | .string tag => some (tag, none)
  | .object [(tag, payload)] => some (tag, some payload)
  | _ => none

/-- A variant without a payload, among the given tags. -/
def unit? {α : Type} (variants : List (String × α)) (v : Value) : Option α :=
  match v.variant? with
  | some (tag, none) => variants.lookup tag
  | some (tag, some .null) => variants.lookup tag
  | _ => none

end Value

end TensorLowering.Json
