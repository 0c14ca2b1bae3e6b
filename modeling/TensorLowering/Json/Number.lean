import TensorLowering.Numeric.Shortest

/-! # Numbers of a document

A number is kept as it is written, so that an integer and a decimal with the same value stay
apart; only the sign of an exponent, which may be left out when read, is always written. Integers
are read exactly; a decimal is read into 64 bits.

## Implementation notes

A decimal is read in one pass: digits are gathered into a significand for as long as it fits 64
bits, what follows only moves the exponent or is dropped, and the significand is then scaled by a
power of ten. For at most 15 digits and exponents up to 22 this is the nearest number. -/

namespace TensorLowering.Json

open Numeric

/-- The exponent part of a number. -/
structure Exponent where
  negative : Bool
  digits : List Char
  deriving DecidableEq, Repr

/-- The characters of an exponent part: its sign is always written. -/
def Exponent.chars (e : Exponent) : List Char :=
  'e' :: (if e.negative then '-' else '+') :: e.digits

/-- A number as written: a sign, digits before the point, digits after it, and an exponent. -/
structure Number where
  negative : Bool
  whole : List Char
  fraction : Option (List Char)
  exponent : Option Exponent
  deriving DecidableEq, Repr

/-- The value of a digit character. -/
def digitValue (c : Char) : Nat := c.toNat - '0'.toNat

/-- The value of a list of digits, most significant first. -/
def digitsValue (digits : List Char) : Nat := Nat.ofDigitChars 10 digits 0

/-- One more than the largest unsigned word. -/
def wordLimit : Nat := UInt64.size

/-- One more than the largest signed word. -/
def signedLimit : Nat := 0x8000000000000000

namespace Number

/-- The number of a natural. -/
def ofNat (n : Nat) : Number := ⟨false, Nat.toDigits 10 n, none, none⟩

/-- The number of an integer. -/
def ofInt (n : Int) : Number := ⟨n < 0, Nat.toDigits 10 n.natAbs, none, none⟩

/-- The number of a numeral. -/
def ofNumeral (n : Numeral) : Number :=
  ⟨n.negative, n.whole, n.fraction, n.exponent.map fun e => ⟨e < 0, Nat.toDigits 10 e.natAbs⟩⟩

/-- The natural number written, if it is an integer that fits an unsigned 64-bit word. -/
def natural? (n : Number) : Option Nat :=
  match n.negative, n.fraction, n.exponent with
  | false, none, none =>
    let value := digitsValue n.whole
    if value < wordLimit then some value else none
  | _, _, _ => none

/-- The integer written, if it fits a signed 64-bit word. A zero with a sign is no integer. -/
def integer? (n : Number) : Option Int64 :=
  match n.fraction, n.exponent with
  | none, none =>
    let value := digitsValue n.whole
    if n.negative then
      if value ≠ 0 ∧ value ≤ signedLimit then some (Int64.ofInt (-value)) else none
    else if value < signedLimit then some (Int64.ofNat value)
    else none
  | _, _ => none

/-- Digits gathered so far, the power of ten that belongs to them, and whether further digits of
this part are dropped. -/
structure Gathered where
  significand : Nat
  exponent : Int
  full : Bool

/-- Takes a digit before the point; once the significand is full, a digit only counts. -/
def gatherWhole (g : Gathered) (c : Char) : Gathered :=
  let next := 10 * g.significand + digitValue c
  if g.full || wordLimit ≤ next then { g with exponent := g.exponent + 1, full := true }
  else { g with significand := next }

/-- Takes a digit after the point; once the significand is full, digits are dropped. -/
def gatherFraction (g : Gathered) (c : Char) : Gathered :=
  let next := 10 * g.significand + digitValue c
  if g.full || wordLimit ≤ next then { g with full := true }
  else { g with significand := next, exponent := g.exponent - 1 }

/-- The exponent written, clamped to what a signed 32-bit word holds; with the flag that it did not
fit. -/
def exponentValue (e : Exponent) : Int × Bool :=
  let value := digitsValue e.digits
  (if e.negative then -value else value, 0x80000000 ≤ value)

/-- The 64-bit number read; overflow has no value. An integer of at most 64 bits is rounded
directly, and other numbers are scaled from their digits. -/
def float? (n : Number) : Option Binary64 :=
  let withSign (x : Binary64) := if n.negative then x.neg else x
  let whole := n.whole.foldl gatherWhole ⟨0, 0, false⟩
  match n.fraction, n.exponent with
  | none, none =>
    if whole.full then (Binary64.scaleByTen whole.significand whole.exponent).map withSign
    else some (withSign (.ofNat whole.significand))
  | fraction, exponent =>
    let digits := (fraction.getD []).foldl gatherFraction { whole with full := false }
    match exponent with
    | none => (Binary64.scaleByTen digits.significand digits.exponent).map withSign
    | some e =>
      let (shift, tooLong) := exponentValue e
      if tooLong then
        if digits.significand ≠ 0 ∧ !e.negative then none else some (withSign (.ofNat 0))
      else (Binary64.scaleByTen digits.significand (digits.exponent + shift)).map withSign

/-- The characters of a number. -/
def chars (n : Number) : List Char :=
  (if n.negative then ['-'] else []) ++ n.whole ++
    (match n.fraction with
      | some digits => '.' :: digits
      | none => []) ++
    match n.exponent with
    | some e => e.chars
    | none => []

end Number

@[simp] theorem digitsValue_toDigits (n : Nat) : digitsValue (Nat.toDigits 10 n) = n :=
  Nat.ofDigitChars_toDigits (by decide) (by decide)

end TensorLowering.Json
