import TensorLowering.Numeric.Format

/-! # 64-bit floating-point numbers

A number is kept as its word, so equality is equality of bits. Attributes of graph nodes hold such
numbers, and decimals in documents are read into them. -/

namespace TensorLowering.Numeric

/-- A 64-bit floating-point number, given by its bits. -/
structure Binary64 where
  bits : UInt64
  deriving DecidableEq, Repr

namespace Binary64

/-- The number as a machine float. -/
def toFloat (x : Binary64) : Float := Float.ofBits x.bits

/-- The bits of a machine float. -/
def ofFloat (x : Float) : Binary64 := ⟨x.toBits⟩

/-- What the number stands for. -/
def decode (x : Binary64) : Decoded := Format.binary64.decode x.bits.toNat

/-- The number nearest to `± m * 2 ^ q`. -/
def ofDyadic (negative : Bool) (m : Nat) (q : Int) : Binary64 :=
  ⟨(Format.binary64.encode negative m q).toUInt64⟩

/-- The number nearest to a natural number. -/
def ofNat (n : Nat) : Binary64 := ofDyadic false n 0

/-- The number with its sign flipped. -/
def neg (x : Binary64) : Binary64 := ⟨x.bits ^^^ 0x8000000000000000⟩

/-- Neither NaN nor an infinity. -/
def isFinite (x : Binary64) : Bool :=
  match x.decode with
  | .finite .. => true
  | _ => false

/-- The power of ten nearest to `10 ^ n`. -/
def powerOfTen (n : Nat) : Binary64 := ofFloat (Float.ofScientific 1 false n)

/-- The greatest exponent of ten that is scaled by in one step. -/
def maxPowerOfTen : Nat := 308

/-- `significand * 10 ^ exponent`, computed with one rounding for the significand and one for each
scaling step. Scaling up happens in one step and overflow has no value; scaling down divides by
`10 ^ 308` until the exponent is within one step. -/
def scaleByTen (significand : Nat) (exponent : Int) : Option Binary64 :=
  let start := (ofNat significand).toFloat
  if 0 ≤ exponent then
    if exponent ≤ maxPowerOfTen then
      let scaled := ofFloat (start * (powerOfTen exponent.toNat).toFloat)
      if scaled.isFinite then some scaled else none
    else if significand = 0 then some (ofFloat start)
    else none
  else
    some (ofFloat (descend start (exponent.natAbs / maxPowerOfTen) exponent.natAbs))
where
  /-- Divides by ten `remaining` times, at most 308 at once; `fuel` counts the full steps. -/
  descend (x : Float) : Nat → Nat → Float
    | 0, remaining => x / (powerOfTen remaining).toFloat
    | fuel + 1, remaining =>
      if remaining ≤ maxPowerOfTen then x / (powerOfTen remaining).toFloat
      else if x == 0 then x
      else descend (x / (powerOfTen maxPowerOfTen).toFloat) fuel (remaining - maxPowerOfTen)

end Binary64

end TensorLowering.Numeric
