import TensorLowering.Numeric.Binary32

/-! # Bytes

Words are stored with the least significant byte first. Reading a payload takes whole words and
drops what remains at the end. -/

namespace TensorLowering.Bytes

open Numeric

/-- The lowest `count` bytes of a natural number. -/
def littleEndian : Nat → Nat → List UInt8
  | 0, _ => []
  | count + 1, n => n.toUInt8 :: littleEndian count (n / 256)

/-- The natural number that the bytes stand for. -/
def toNat : List UInt8 → Nat
  | [] => 0
  | b :: rest => b.toNat + 256 * toNat rest

/-- The whole 32-bit words of a payload. -/
def words32 : List UInt8 → List UInt32
  | a :: b :: c :: d :: rest => (toNat [a, b, c, d]).toUInt32 :: words32 rest
  | _ => []

/-- The whole 64-bit words of a payload. -/
def words64 : List UInt8 → List UInt64
  | a :: b :: c :: d :: e :: f :: g :: h :: rest =>
    (toNat [a, b, c, d, e, f, g, h]).toUInt64 :: words64 rest
  | _ => []

/-- The bytes of a 32-bit number. -/
def ofBinary32 (x : Binary32) : List UInt8 := littleEndian 4 x.bits.toNat

/-- The bytes of a 32-bit integer. -/
def ofInt32 (n : Int32) : List UInt8 := littleEndian 4 n.toUInt32.toNat

/-- The bytes of a 64-bit integer. -/
def ofInt64 (n : Int64) : List UInt8 := littleEndian 8 n.toUInt64.toNat

@[simp] theorem length_littleEndian (count n : Nat) : (littleEndian count n).length = count := by
  induction count generalizing n with
  | zero => rfl
  | succ count ih => simp [littleEndian, ih]

/-- Reading the bytes of a number back gives the number, as far as it fits them. -/
theorem toNat_littleEndian (count n : Nat) : toNat (littleEndian count n) = n % Nat.pow 256 count := by
  induction count generalizing n with
  | zero => simp [littleEndian, toNat, Nat.mod_one]
  | succ count ih =>
    have : n.toUInt8.toNat = n % 256 := by simp
    rw [littleEndian, toNat, ih, this, Nat.pow_eq, Nat.pow_eq, Nat.pow_succ', Nat.mod_mul]

end TensorLowering.Bytes
