import TensorLowering.Numeric.Binary64

/-! # 32-bit floating-point numbers

The elements of numeric tensors. A number is kept as its word: equality is equality of bits, and a
NaN keeps its payload as long as it is only moved. Addition, subtraction, multiplication, division
and square root round once, to the nearest number; the remainder, the floor and the conversions are
computed exactly on the decoded value. -/

namespace TensorLowering.Numeric

/-- A 32-bit floating-point number, given by its bits. -/
structure Binary32 where
  bits : UInt32
  deriving DecidableEq, Repr

namespace Binary32

/-- The number as a machine float. -/
def toFloat32 (x : Binary32) : Float32 := Float32.ofBits x.bits

/-- The bits of a machine float. -/
def ofFloat32 (x : Float32) : Binary32 := ⟨x.toBits⟩

/-- What the number stands for. -/
def decode (x : Binary32) : Decoded := Format.binary32.decode x.bits.toNat

/-- The number of a decoded value. -/
def ofDecoded (v : Decoded) : Binary32 := ⟨(Format.binary32.encodeDecoded v).toUInt32⟩

/-- The number nearest to `± m * 2 ^ q`. -/
def ofDyadic (negative : Bool) (m : Nat) (q : Int) : Binary32 := ofDecoded (.finite negative m q)

/-- Positive zero. -/
def zero : Binary32 := ⟨0⟩

/-- Negative zero, from which a sum can start without changing the sign of a zero result. -/
def negZero : Binary32 := ⟨0x80000000⟩

/-- One. -/
def one : Binary32 := ⟨0x3f800000⟩

/-- Positive infinity. -/
def infinity : Binary32 := ⟨0x7f800000⟩

/-- Negative infinity. -/
def negInfinity : Binary32 := ⟨0xff800000⟩

/-- The quiet NaN with an empty payload. -/
def nan : Binary32 := ofDecoded .nan

instance : Add Binary32 := ⟨fun x y => ofFloat32 (x.toFloat32 + y.toFloat32)⟩
instance : Sub Binary32 := ⟨fun x y => ofFloat32 (x.toFloat32 - y.toFloat32)⟩
instance : Mul Binary32 := ⟨fun x y => ofFloat32 (x.toFloat32 * y.toFloat32)⟩
instance : Div Binary32 := ⟨fun x y => ofFloat32 (x.toFloat32 / y.toFloat32)⟩

/-- Square root, rounded once. -/
def sqrt (x : Binary32) : Binary32 := ofFloat32 x.toFloat32.sqrt

/-- Clears the sign. -/
def abs (x : Binary32) : Binary32 := ⟨x.bits &&& 0x7fffffff⟩

/-- True for every NaN word. -/
def isNaN (x : Binary32) : Bool := x.decode == .nan

/-- The larger operand; a NaN operand is passed over. -/
def max (x y : Binary32) : Binary32 :=
  if x.isNaN then y
  else if y.isNaN then x
  else if x.toFloat32 < y.toFloat32 then y else x

/-- The smaller operand; a NaN operand is passed over. -/
def min (x y : Binary32) : Binary32 :=
  if x.isNaN then y
  else if y.isNaN then x
  else if y.toFloat32 < x.toFloat32 then y else x

/-- The greatest integer not above the number. -/
def floor (x : Binary32) : Binary32 :=
  match x.decode with
  | .finite negative m q =>
    if 0 ≤ q then x
    else
      let unit := twoPow q.natAbs
      ofDyadic negative (m / unit + if negative && m % unit != 0 then 1 else 0) 0
  | _ => x

/-- The exact remainder of the division truncated towards zero; it has the sign of the dividend. -/
def remainder (x y : Binary32) : Binary32 :=
  match x.decode, y.decode with
  | .finite negative m q, .finite _ n r =>
    if n = 0 then nan
    else
      let least := if q ≤ r then q else r
      let dividend := m * twoPow (q - least).toNat
      let divisor := n * twoPow (r - least).toNat
      ofDyadic negative (dividend % divisor) least
  | .finite .., .infinite _ => x
  | _, _ => nan

/-- The number as a 64-bit number, which is exact. -/
def widen (x : Binary32) : Binary64 := ⟨(Format.binary64.encodeDecoded x.decode).toUInt64⟩

/-- The nearest 32-bit number. -/
def narrow (x : Binary64) : Binary32 := ofDecoded x.decode

/-- The power, computed in 64 bits and rounded. -/
def pow (x y : Binary32) : Binary32 :=
  narrow (.ofFloat (x.widen.toFloat.pow y.widen.toFloat))

/-- The nearest number to an integer. -/
def ofInt (n : Int) : Binary32 := ofDyadic (n < 0) n.natAbs 0

/-- The number truncated towards zero and clamped to `lo ≤ n ≤ hi`; NaN gives zero. -/
def toIntClamped (lo hi : Int) (x : Binary32) : Int :=
  match x.decode with
  | .nan => 0
  | .infinite negative => if negative then lo else hi
  | .finite negative m q =>
    let whole : Int := if 0 ≤ q then m * twoPow q.toNat else m / twoPow q.natAbs
    Max.max lo (Min.min hi (if negative then -whole else whole))

/-- The nearest 32-bit integer towards zero, saturating. -/
def toInt32 (x : Binary32) : Int32 := Int32.ofInt (x.toIntClamped Int32.minValue.toInt Int32.maxValue.toInt)

/-- The nearest 64-bit integer towards zero, saturating. -/
def toInt64 (x : Binary32) : Int64 := Int64.ofInt (x.toIntClamped Int64.minValue.toInt Int64.maxValue.toInt)

end Binary32

end TensorLowering.Numeric
