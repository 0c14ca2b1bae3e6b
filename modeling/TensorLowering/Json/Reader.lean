import TensorLowering.Json.Value

/-! # Reading a document

A text is a document when it is one value with white space around it. Leading zeros, signs of plus,
bare points, trailing commas, comments, bare control characters in strings and anything after the
value are refused.

## Implementation notes

The reader recurses with a counter that each nested value and each further item or member uses up;
twice the length of the text is always enough. A string is read into codes first: the code of a
character, or the 16-bit unit of an escape; two units that form a pair are joined afterwards. -/

namespace TensorLowering.Json

/-- The four characters that may stand between tokens. -/
def isSpace (c : Char) : Bool := c == ' ' || c == '\n' || c == '\t' || c == '\r'

/-- The text without the white space in front. -/
def skipSpace (cs : List Char) : List Char := cs.dropWhile isSpace

/-- The value of a hexadecimal digit. -/
def hexValue? (c : Char) : Option Nat :=
  if '0' ≤ c ∧ c ≤ '9' then some (c.toNat - '0'.toNat)
  else if 'a' ≤ c ∧ c ≤ 'f' then some (c.toNat - 'a'.toNat + 10)
  else if 'A' ≤ c ∧ c ≤ 'F' then some (c.toNat - 'A'.toNat + 10)
  else none

/-- The character that a one-letter escape stands for. -/
def escapedChar? : Char → Option Char
  | '"' => some '"'
  | '\\' => some '\\'
  | '/' => some '/'
  | 'b' => some '\x08'
  | 'f' => some '\x0c'
  | 'n' => some '\n'
  | 'r' => some '\r'
  | 't' => some '\t'
  | _ => none

/-- The codes of a string up to its closing quote, and the text after the quote. -/
def readCodes : List Char → Option (List Nat × List Char)
  | '"' :: rest => some ([], rest)
  | '\\' :: 'u' :: a :: b :: c :: d :: rest => do
    let unit := 4096 * (← hexValue? a) + 256 * (← hexValue? b) + 16 * (← hexValue? c) + (← hexValue? d)
    let (codes, rest) ← readCodes rest
    pure (unit :: codes, rest)
  | '\\' :: c :: rest => do
    let char ← escapedChar? c
    let (codes, rest) ← readCodes rest
    pure (char.toNat :: codes, rest)
  | c :: rest =>
    if c.toNat < 0x20 ∨ c = '\\' then none
    else do
      let (codes, rest) ← readCodes rest
      pure (c.toNat :: codes, rest)
  | [] => none

/-- True for the first unit of a pair. -/
def isLeadUnit (code : Nat) : Bool := 0xD800 ≤ code && code ≤ 0xDBFF

/-- True for the second unit of a pair. -/
def isTrailUnit (code : Nat) : Bool := 0xDC00 ≤ code && code ≤ 0xDFFF

/-- Joins pairs of units; a unit without its partner stands for no character. -/
def joinCodes : List Nat → Option (List Char)
  | [] => some []
  | code :: rest =>
    if isLeadUnit code then
      match rest with
      | trail :: rest =>
        if isTrailUnit trail then
          (joinCodes rest).map (Char.ofNat (0x10000 + (code - 0xD800) * 0x400 + (trail - 0xDC00)) :: ·)
        else none
      | [] => none
    else if isTrailUnit code then none
    else (joinCodes rest).map (Char.ofNat code :: ·)

/-- The value of a string after its opening quote. -/
def readString (cs : List Char) : Option (Value × List Char) := do
  let (codes, rest) ← readCodes cs
  match joinCodes codes with
  | some chars => pure (.string (String.ofList chars), rest)
  | none => pure (.malformed, rest)

/-- The name of a member after its opening quote; a malformed one is read as no name. -/
def readName (cs : List Char) : Option (Option String × List Char) := do
  let (codes, rest) ← readCodes cs
  pure ((joinCodes codes).map String.ofList, rest)

/-- Puts a member in front of the others; if a name is malformed there are no members. -/
def consMember (name : Option String) (value : Value) (rest : Option (List (String × Value))) :
    Option (List (String × Value)) := do
  pure ((← name, value) :: (← rest))

/-- The object with the given members. -/
def objectOf : Option (List (String × Value)) → Value
  | some members => .object members
  | none => .malformed

/-- The digits in front, and what follows them. -/
def readDigits (cs : List Char) : List Char × List Char := cs.span Char.isDigit

/-- The digits after a point, at least one, if there is a point. -/
def readFraction : List Char → Option (Option (List Char) × List Char)
  | '.' :: rest =>
    match readDigits rest with
    | ([], _) => none
    | (digits, rest) => some (some digits, rest)
  | rest => some (none, rest)

/-- The digits of an exponent, at least one, behind its sign. -/
def readExponentDigits (negative : Bool) (cs : List Char) : Option (Option Exponent × List Char) :=
  match readDigits cs with
  | ([], _) => none
  | (digits, rest) => some (some ⟨negative, digits⟩, rest)

/-- The exponent part, if there is one. -/
def readExponent : List Char → Option (Option Exponent × List Char)
  | c :: rest =>
    if c = 'e' ∨ c = 'E' then
      match rest with
      | '+' :: rest => readExponentDigits false rest
      | '-' :: rest => readExponentDigits true rest
      | rest => readExponentDigits false rest
    else some (none, c :: rest)
  | [] => some (none, [])

/-- The digits before the point: a zero alone, or digits that do not start with zero. -/
def readWhole (cs : List Char) : Option (List Char × List Char) :=
  match readDigits cs with
  | ([], _) => none
  | ('0' :: _ :: _, _) => none
  | (digits, rest) => some (digits, rest)

/-- A number. -/
def readNumber (cs : List Char) : Option (Number × List Char) := do
  let (negative, cs) := match cs with
    | '-' :: rest => (true, rest)
    | rest => (false, rest)
  let (whole, cs) ← readWhole cs
  let (fraction, cs) ← readFraction cs
  let (exponent, cs) ← readExponent cs
  pure (⟨negative, whole, fraction, exponent⟩, cs)

mutual

/-- A value, with white space in front. -/
def readValue : Nat → List Char → Option (Value × List Char)
  | 0, _ => none
  | fuel + 1, cs =>
    match skipSpace cs with
    | 'n' :: 'u' :: 'l' :: 'l' :: rest => some (.null, rest)
    | 't' :: 'r' :: 'u' :: 'e' :: rest => some (.bool true, rest)
    | 'f' :: 'a' :: 'l' :: 's' :: 'e' :: rest => some (.bool false, rest)
    | '"' :: rest => readString rest
    | '[' :: rest =>
      match skipSpace rest with
      | ']' :: rest => some (.array [], rest)
      | rest => (readItems fuel rest).map fun (items, rest) => (.array items, rest)
    | '\x7b' :: rest =>
      match skipSpace rest with
      | '\x7d' :: rest => some (.object [], rest)
      | rest => (readMembers fuel rest).map fun (members, rest) => (objectOf members, rest)
    | rest => (readNumber rest).map fun (n, rest) => (.number n, rest)

/-- The items of an array up to its closing bracket, at least one. -/
def readItems : Nat → List Char → Option (List Value × List Char)
  | 0, _ => none
  | fuel + 1, cs => do
    let (item, rest) ← readValue fuel cs
    match skipSpace rest with
    | ',' :: rest =>
      let (items, rest) ← readItems fuel rest
      pure (item :: items, rest)
    | ']' :: rest => pure ([item], rest)
    | _ => none

/-- The members of an object up to its closing brace, at least one. -/
def readMembers : Nat → List Char → Option (Option (List (String × Value)) × List Char)
  | 0, _ => none
  | fuel + 1, cs =>
    match skipSpace cs with
    | '"' :: rest => do
      let (name, rest) ← readName rest
      match skipSpace rest with
      | ':' :: rest =>
        let (value, rest) ← readValue fuel rest
        match skipSpace rest with
        | ',' :: rest =>
          let (members, rest) ← readMembers fuel rest
          pure (consMember name value members, rest)
        | '\x7d' :: rest => pure (consMember name value (some []), rest)
        | _ => none
      | _ => none
    | _ => none

end

/-- The value of a document, if the text is one. -/
def parse? (text : String) : Option Value :=
  let cs := text.toList
  match readValue (2 * cs.length + 2) cs with
  | some (value, rest) => if skipSpace rest = [] then some value else none
  | none => none

end TensorLowering.Json
