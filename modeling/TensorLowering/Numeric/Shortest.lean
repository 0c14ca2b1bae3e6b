import TensorLowering.Numeric.Binary32

/-! # Shortest decimals

The decimal with the fewest digits that reads back to a given binary number, and of several such
the one closest to it. `DecimalStyle` says how the digits are laid out: within a range of magnitudes
positionally, with at least one digit on each side of the point, and outside it with an exponent.

## Implementation notes

Candidates are compared with the rounding interval of the number by cross-multiplication of
naturals. For each digit count the two neighbours of the number on that decimal grid are tried; a
grid with a point inside the interval has one of these two inside it. -/

namespace TensorLowering.Numeric

/-- The number `digits * 10 ^ exponent`. -/
structure Decimal where
  digits : Nat
  exponent : Int
  deriving DecidableEq, Repr

/-- Which of two equally close candidates is taken. -/
inductive Tie where
  | toEven
  | awayFromZero
  deriving DecidableEq, Repr

/-- A positive dyadic number with the interval of reals that round to it: from `lower` to `upper`,
both in quarters of the last place, the ends included when `closed`. -/
structure RoundingInterval where
  significand : Nat
  exponent : Int
  lower : Nat
  upper : Nat
  closed : Bool

namespace RoundingInterval

/-- The interval of `m * 2 ^ q` in a format. The gap below a power of two is half the gap above
it, except at the bottom of the format. -/
def ofFinite (f : Format) (m : Nat) (q : Int) : RoundingInterval :=
  let narrowBelow := m == twoPow f.fractionBits && f.minExponent < q
  { significand := m
    exponent := q
    lower := if narrowBelow then 4 * m - 1 else 4 * m - 2
    upper := 4 * m + 2
    closed := m % 2 == 0 }

/-- Compares `d * 10 ^ g` with `n * 2 ^ e`. -/
def compareScaled (d : Nat) (g : Int) (n : Nat) (e : Int) : Ordering :=
  compare (d * tenPow g.toNat * twoPow (-e).toNat) (n * twoPow e.toNat * tenPow (-g).toNat)

/-- True when the decimal `d * 10 ^ g` rounds to the number. -/
def contains (x : RoundingInterval) (d : Nat) (g : Int) : Bool :=
  let below := compareScaled d g x.lower (x.exponent - 2)
  let above := compareScaled d g x.upper (x.exponent - 2)
  (below == .gt || (x.closed && below == .eq)) && (above == .lt || (x.closed && above == .eq))

/-- The number divided by `10 ^ g`, as numerator and denominator. -/
def scaled (x : RoundingInterval) (g : Int) : Nat × Nat :=
  (x.significand * twoPow x.exponent.toNat * tenPow (-g).toNat,
    twoPow (-x.exponent).toNat * tenPow g.toNat)

/-- The least `k` with the number below `10 ^ k`, found next to its estimate from the logarithm. -/
def decimalPoint (x : RoundingInterval) : Int :=
  let guess := (x.exponent + x.significand.log2) * 30103 / 100000
  let offsets : List Int := [-1, 0, 1, 2]
  match offsets.find? fun d => compareScaled 1 (guess + d) x.significand x.exponent == .gt with
  | some d => guess + d
  | none => guess + 3

/-- The candidate of the grid `10 ^ g`, if one of the two neighbours reads back. -/
def onGrid (x : RoundingInterval) (tie : Tie) (g : Int) : Option Nat :=
  let (num, den) := x.scaled g
  let low := num / den
  let high := low + 1
  match x.contains low g, x.contains high g with
  | true, false => some low
  | false, true => some high
  | false, false => none
  | true, true =>
    match compare (2 * num) ((low + high) * den) with
    | .lt => some low
    | .gt => some high
    | .eq =>
      match tie with
      | .toEven => some (if low % 2 = 0 then low else high)
      | .awayFromZero => some high

/-- Most digits that a shortest decimal of either format has. -/
def maxDigits : Nat := 17

/-- Moves trailing zeros of the digits into the exponent. -/
def stripZeros : Nat → Decimal → Decimal
  | 0, d => d
  | fuel + 1, d =>
    if d.digits != 0 && d.digits % 10 == 0 then stripZeros fuel ⟨d.digits / 10, d.exponent + 1⟩
    else d

/-- The shortest decimal; should no grid of at most `maxDigits` digits hold one, the exact value. -/
def shortest (x : RoundingInterval) (tie : Tie) : Decimal :=
  let point := x.decimalPoint
  let found := (List.range maxDigits).findSome? fun (n : Nat) =>
    let g := point - (n + 1)
    (x.onGrid tie g).map fun d => (⟨d, g⟩ : Decimal)
  match found with
  | some d => stripZeros (maxDigits + 1) d
  | none =>
    if 0 ≤ x.exponent then ⟨x.significand * twoPow x.exponent.toNat, 0⟩
    else ⟨x.significand * Nat.pow 5 x.exponent.natAbs, x.exponent⟩

end RoundingInterval

/-- A decimal as it is written: a sign, digits before the point, digits after it, and an exponent of
ten. -/
structure Numeral where
  negative : Bool
  whole : List Char
  fraction : Option (List Char)
  exponent : Option Int
  deriving DecidableEq, Repr

namespace Numeral

/-- The characters of a numeral. -/
def text (n : Numeral) : String :=
  (if n.negative then "-" else "") ++ String.ofList n.whole ++
    (match n.fraction with
      | some digits => "." ++ String.ofList digits
      | none => "") ++
    match n.exponent with
    | some e => "e" ++ toString e
    | none => ""

end Numeral

/-- How the digits of a decimal are laid out: positionally when the decimal point stands more than
`leastPoint` and at most `greatestPoint` places right of the first digit. -/
structure DecimalStyle where
  leastPoint : Int
  greatestPoint : Int
  tie : Tie

namespace DecimalStyle

/-- `n` zeros. -/
def zeros (n : Nat) : List Char := List.replicate n '0'

/-- Lays out a decimal whose digits do not end in zero. -/
def layout (style : DecimalStyle) (negative : Bool) (d : Decimal) : Numeral :=
  let digits := Nat.toDigits 10 d.digits
  let point := d.exponent + digits.length
  if style.leastPoint < point ∧ point ≤ style.greatestPoint then
    if 0 ≤ d.exponent then ⟨negative, digits ++ zeros d.exponent.toNat, some ['0'], none⟩
    else if 0 < point then ⟨negative, digits.take point.toNat, some (digits.drop point.toNat), none⟩
    else ⟨negative, ['0'], some (zeros point.natAbs ++ digits), none⟩
  else
    ⟨negative, digits.take 1, if digits.length ≤ 1 then none else some (digits.drop 1), some (point - 1)⟩

/-- The numeral of a finite number of a format. -/
def numeral (style : DecimalStyle) (f : Format) (negative : Bool) (m : Nat) (q : Int) : Numeral :=
  if m = 0 then ⟨negative, ['0'], some ['0'], none⟩
  else style.layout negative ((RoundingInterval.ofFinite f m q).shortest style.tie)

end DecimalStyle

end TensorLowering.Numeric
