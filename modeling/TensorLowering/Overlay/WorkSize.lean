import TensorLowering.Json.Number
import TensorLowering.Spec.Shape
import TensorLowering.Text.Characters

/-! # Work sizes

The work size of a kernel is an integer expression over the extents of its output:

    sum     = product | sum + product | sum - product
    product = factor | product * factor | product / factor | product % factor
    factor  = ( sum ) | - factor | digits | B | F | Y | X

with the letters in either case and white space anywhere. Operators of one level associate to the
left, and division truncates. Every literal and every intermediate value has to fit a signed 64-bit
word; the final value must not be negative.

## Implementation notes

Values are computed while the text is read, so of several faults the one that is met first is
reported. The reader recurses with a counter; three times the length of the text and three more is
always enough. -/

namespace TensorLowering.Overlay

open Json Text

/-- The extents of an output under the letters of work sizes. -/
structure WorkExtents where
  b : Nat
  f : Nat
  y : Nat
  x : Nat
  deriving DecidableEq, Repr

namespace WorkExtents

/-- The first three extents, and the product of the remaining ones; missing extents are 1. -/
def ofSizes (sizes : List Nat) : WorkExtents :=
  ⟨sizes.getD 0 1, sizes.getD 1 1, sizes.getD 2 1, wordVolume (sizes.drop 3)⟩

/-- The extent under a letter. -/
def extent? (d : WorkExtents) : Char → Option Nat
  | 'B' | 'b' => some d.b
  | 'F' | 'f' => some d.f
  | 'Y' | 'y' => some d.y
  | 'X' | 'x' => some d.x
  | _ => none

end WorkExtents

/-- Why an expression has no work size. -/
inductive WorkSizeFault where
  | overflow
  | divisionByZero
  | missingClose
  | literalTooLarge (digits : String)
  | unknownSymbol (symbol : Char)
  | endOfExpression
  | leftOver (symbol : Char)
  | negative (value : Int)
  deriving DecidableEq, Repr

/-- The text of the reason. -/
def WorkSizeFault.message : WorkSizeFault → String
  | overflow => "overflow"
  | divisionByZero => "division by zero"
  | missingClose => "missing ')'"
  | literalTooLarge digits => s!"bad literal {digits}: number too large to fit in target type"
  | unknownSymbol symbol => s!"unknown symbol '{symbol}'"
  | endOfExpression => "unexpected end of expression"
  | leftOver symbol => s!"unexpected '{symbol}'"
  | negative value => s!"negative result {value}"

namespace WorkSize

/-- True for the integers that a signed 64-bit word holds. -/
def fits (n : Int) : Bool := Int64.minValue.toInt ≤ n && n ≤ Int64.maxValue.toInt

/-- The value, if it fits. -/
def checked (n : Int) : Except WorkSizeFault Int := if fits n then .ok n else .error .overflow

/-- The value of a word read as a signed one. -/
def signedWord (n : Nat) : Int := (Int64.ofNat n).toInt

/-- Adds or subtracts. -/
def additive (op : Char) (a b : Int) : Except WorkSizeFault Int :=
  checked (if op = '+' then a + b else a - b)

/-- Multiplies, divides, or takes the remainder. A remainder is refused where the quotient does not
fit. -/
def multiplicative (op : Char) (a b : Int) : Except WorkSizeFault Int :=
  if op = '*' then checked (a * b)
  else if b = 0 then .error .divisionByZero
  else do
    let quotient ← checked (a.tdiv b)
    pure (if op = '/' then quotient else a.tmod b)

/-- What a part of an expression stands for, and the text after it. -/
abbrev Reading := Except WorkSizeFault (Int × List Char)

/-- A literal. -/
def readLiteral (digits rest : List Char) : Reading :=
  if digitsValue digits < signedLimit then .ok (digitsValue digits, rest)
  else .error (.literalTooLarge (String.ofList digits))

mutual

/-- Products joined by `+` and `-`. -/
def readSum (d : WorkExtents) : Nat → List Char → Reading
  | 0, _ => .error .endOfExpression
  | fuel + 1, cs => do
    let (value, rest) ← readProduct d fuel cs
    readSumTail d fuel value rest

/-- The further products of a sum whose value so far is known. -/
def readSumTail (d : WorkExtents) : Nat → Int → List Char → Reading
  | 0, _, _ => .error .endOfExpression
  | fuel + 1, value, op :: cs =>
    if op = '+' ∨ op = '-' then do
      let (operand, rest) ← readProduct d fuel cs
      readSumTail d fuel (← additive op value operand) rest
    else .ok (value, op :: cs)
  | _ + 1, value, [] => .ok (value, [])

/-- Factors joined by `*`, `/` and `%`. -/
def readProduct (d : WorkExtents) : Nat → List Char → Reading
  | 0, _ => .error .endOfExpression
  | fuel + 1, cs => do
    let (value, rest) ← readFactor d fuel cs
    readProductTail d fuel value rest

/-- The further factors of a product whose value so far is known. -/
def readProductTail (d : WorkExtents) : Nat → Int → List Char → Reading
  | 0, _, _ => .error .endOfExpression
  | fuel + 1, value, op :: cs =>
    if op = '*' ∨ op = '/' ∨ op = '%' then do
      let (operand, rest) ← readFactor d fuel cs
      readProductTail d fuel (← multiplicative op value operand) rest
    else .ok (value, op :: cs)
  | _ + 1, value, [] => .ok (value, [])

/-- A sum in parentheses, a negated factor, a literal or a letter. -/
def readFactor (d : WorkExtents) : Nat → List Char → Reading
  | 0, _ => .error .endOfExpression
  | _ + 1, [] => .error .endOfExpression
  | fuel + 1, c :: cs =>
    if c = '(' then do
      match ← readSum d fuel cs with
      | (value, ')' :: rest) => .ok (value, rest)
      | _ => .error .missingClose
    else if c = '-' then do
      let (value, rest) ← readFactor d fuel cs
      pure (← checked (-value), rest)
    else if c.isDigit then
      let (digits, rest) := (c :: cs).span Char.isDigit
      readLiteral digits rest
    else
      match d.extent? c with
      | some extent => .ok (signedWord extent, cs)
      | none => .error (.unknownSymbol c)

end

/-- Evaluates the characters of an expression without white space. -/
def evaluateChars (d : WorkExtents) (cs : List Char) : Except WorkSizeFault Nat := do
  match ← readSum d (3 * cs.length + 3) cs with
  | (value, []) => if value < 0 then .error (.negative value) else .ok value.toNat
  | (_, c :: _) => .error (.leftOver c)

end WorkSize

/-- The work size that an expression stands for. -/
def evaluateWorkSize (d : WorkExtents) (expression : String) : Except WorkSizeFault Nat :=
  WorkSize.evaluateChars d (withoutBlanks expression)

end TensorLowering.Overlay
