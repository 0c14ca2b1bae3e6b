/-! # Binary floating-point formats

A format fixes how many bits of a word hold the fraction and how many hold the exponent. `decode`
reads a word as a dyadic number, an infinity or a NaN; `encode` rounds a dyadic number to the
nearest word of the format, an exact half going to the even neighbour.

## Implementation notes

Everything here is exact integer arithmetic, so that the conversions, the remainder and the
rounding to integers built on it can be evaluated and reasoned about. The packed word of a finite
number is `(e - minExponent) * 2 ^ fractionBits + n`, where `n * 2 ^ e` is the rounded value: the
same formula covers subnormal numbers, normal numbers and a carry into the next binade. -/

namespace TensorLowering.Numeric

/-- Two to the power `n`. -/
def twoPow (n : Nat) : Nat := Nat.pow 2 n

/-- Ten to the power `n`. -/
def tenPow (n : Nat) : Nat := Nat.pow 10 n

/-- The widths of the two fields below the sign bit of a binary floating-point word. -/
structure Format where
  fractionBits : Nat
  exponentBits : Nat
  deriving DecidableEq, Repr

/-- What a word of a binary format stands for. -/
inductive Decoded where
  | nan
  | infinite (negative : Bool)
  /-- The number `significand * 2 ^ exponent`, negated when `negative`. -/
  | finite (negative : Bool) (significand : Nat) (exponent : Int)
  deriving DecidableEq, Repr

namespace Format

/-- The 32-bit interchange format. -/
def binary32 : Format := ⟨23, 8⟩

/-- The 64-bit interchange format. -/
def binary64 : Format := ⟨52, 11⟩

/-- The exponent of the last place of the subnormal numbers. -/
def minExponent (f : Format) : Int := 2 - twoPow (f.exponentBits - 1) - f.fractionBits

/-- The weight of the sign bit. -/
def signWeight (f : Format) : Nat := twoPow (f.fractionBits + f.exponentBits)

/-- The word of positive infinity; every larger word without a sign is a NaN. -/
def infinity (f : Format) : Nat := (twoPow f.exponentBits - 1) * twoPow f.fractionBits

/-- The quiet NaN with an empty payload. -/
def quietNaN (f : Format) : Nat := f.infinity + twoPow (f.fractionBits - 1)

/-- The word for a sign and a magnitude without one. -/
def signed (f : Format) (negative : Bool) (magnitude : Nat) : Nat :=
  if negative then f.signWeight + magnitude else magnitude

/-- Reads a word of the format. -/
def decode (f : Format) (word : Nat) : Decoded :=
  let negative := word / f.signWeight % 2 == 1
  let magnitude := word % f.signWeight
  let exponent := magnitude / twoPow f.fractionBits
  let fraction := magnitude % twoPow f.fractionBits
  if exponent = twoPow f.exponentBits - 1 then
    if fraction = 0 then .infinite negative else .nan
  else if exponent = 0 then
    .finite negative fraction f.minExponent
  else
    .finite negative (twoPow f.fractionBits + fraction) (f.minExponent + (exponent - 1))

/-- `m / 2 ^ shift` rounded to an integer, an exact half going to the even neighbour. -/
def roundShift (m shift : Nat) : Nat :=
  let quotient := m / twoPow shift
  let twice := 2 * (m % twoPow shift)
  if twice < twoPow shift then quotient
  else if twoPow shift < twice then quotient + 1
  else quotient + quotient % 2

/-- The magnitude word nearest to `m * 2 ^ q`; infinity once the largest finite number is passed. -/
def encodeMagnitude (f : Format) (m : Nat) (q : Int) : Nat :=
  if m = 0 then 0
  else
    let last := max f.minExponent (q + m.log2 - f.fractionBits)
    let rounded := if last ≤ q then m * twoPow (q - last).toNat else roundShift m (last - q).toNat
    min f.infinity ((last - f.minExponent).toNat * twoPow f.fractionBits + rounded)

/-- The word nearest to `± m * 2 ^ q`. -/
def encode (f : Format) (negative : Bool) (m : Nat) (q : Int) : Nat :=
  f.signed negative (f.encodeMagnitude m q)

/-- The word of a decoded value; NaN payloads are not kept. -/
def encodeDecoded (f : Format) : Decoded → Nat
  | .nan => f.quietNaN
  | .infinite negative => f.signed negative f.infinity
  | .finite negative m q => f.encode negative m q

end Format

end TensorLowering.Numeric
