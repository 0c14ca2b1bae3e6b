import Mathlib.Data.List.TakeDrop
import Mathlib.Data.List.Basic
import TensorLowering.Json.Printer
import TensorLowering.Json.Reader

/-!
# What is written is read back

The text of a value holds that value and no other: reading finds the end of every string, number,
array and object where writing put it, whatever characters stand in the strings.

## Implementation notes

A number has no closing mark, so a value is read back in front of any text that does not go on with
a number (`Ends`). The counter of the reader is compared with the length of the text: every nested
value and every further item or member has a character of its own.

## Main statements

* `Json.readCodes_flatMap_escapeChar`: every string is read back from its escapes.
* `Json.readNumber_chars`: so is every number of the right form.
* `Json.parse?_compact`: so is every value that has a text.
-/

namespace TensorLowering.Json

variable {cs digits rest : List Char}

/-! ## Strings -/

theorem hexValue?_hexDigit {n : Nat} (h : n < 16) : hexValue? (hexDigit n) = some n := by
  revert n
  decide

/-- The escape of a control character. -/
theorem readCodes_control {n : Nat} (h : n < 0x20) :
    readCodes ('\\' :: 'u' :: '0' :: '0' :: hexDigit (n / 16) :: hexDigit (n % 16) :: rest) =
      (readCodes rest).map fun (codes, rest) => (n :: codes, rest) := by
  have hzero : hexValue? '0' = some 0 := by decide
  have hhigh := hexValue?_hexDigit (n := n / 16) (by omega)
  have hlow := hexValue?_hexDigit (n := n % 16) (by omega)
  have hunit : 4096 * 0 + 256 * 0 + 16 * (n / 16) + n % 16 = n := by omega
  rw [readCodes]
  simp only [hzero, hhigh, hlow, Option.bind_eq_bind, Option.bind_some, hunit, Option.map_eq_bind]
  rfl

theorem readCodes_plain {c : Char} (hquote : c ≠ '"') (hescape : c ≠ '\\') (h : 0x20 ≤ c.toNat) :
    readCodes (c :: rest) =
      (readCodes rest).map fun (codes, rest) => (c.toNat :: codes, rest) := by
  rw [readCodes]
  · rw [if_neg (not_or.2 ⟨Nat.not_lt.2 h, hescape⟩), Option.map_eq_bind]
    rfl
  · exact hquote
  · intro _ _ _ _ _ hc
    exact absurd hc hescape
  · intro _ _ hc
    exact absurd hc hescape

/-- One character is read back from what stands for it. -/
theorem readCodes_escapeChar (c : Char) (rest : List Char) :
    readCodes (escapeChar c ++ rest) =
      (readCodes rest).map fun (codes, rest) => (c.toNat :: codes, rest) := by
  unfold escapeChar
  split
  case h_8 c hquote hescape _ _ _ _ _ =>
    split
    · next hsmall => exact readCodes_control hsmall
    · next hlarge => exact readCodes_plain hquote hescape (Nat.not_lt.1 hlarge)
  all_goals
    rw [Option.map_eq_bind]
    rfl

/-- Every string is read back from its escapes. -/
theorem readCodes_flatMap_escapeChar (cs rest : List Char) :
    readCodes (cs.flatMap escapeChar ++ '"' :: rest) = some (cs.map Char.toNat, rest) := by
  induction cs with
  | nil => rfl
  | cons c cs ih =>
      rw [List.flatMap_cons, List.append_assoc, readCodes_escapeChar, ih]
      rfl

theorem joinCodes_map_toNat (cs : List Char) : joinCodes (cs.map Char.toNat) = some cs := by
  induction cs with
  | nil => rfl
  | cons c cs ih =>
      -- a character has no code between the two ends of the units that form pairs
      have hvalid : c.toNat < 0xD800 ∨ 0xDFFF < c.toNat ∧ c.toNat < 0x110000 := c.valid
      have hlead : isLeadUnit c.toNat = false := by
        rw [isLeadUnit, Bool.and_eq_false_iff, decide_eq_false_iff_not, decide_eq_false_iff_not]
        omega
      have htrail : isTrailUnit c.toNat = false := by
        rw [isTrailUnit, Bool.and_eq_false_iff, decide_eq_false_iff_not, decide_eq_false_iff_not]
        omega
      rw [List.map_cons]
      unfold joinCodes
      rw [hlead, htrail, ih, Char.ofNat_toNat]
      rfl

theorem quoted_append (s : String) (rest : List Char) :
    quoted s ++ rest = '"' :: (s.toList.flatMap escapeChar ++ '"' :: rest) := by
  rw [quoted, List.cons_append, List.cons_append, List.append_assoc, List.singleton_append]

theorem readString_quoted (s : String) (rest : List Char) :
    readString (s.toList.flatMap escapeChar ++ '"' :: rest) = some (.string s, rest) := by
  rw [readString, readCodes_flatMap_escapeChar, Option.bind_eq_bind, Option.bind_some]
  simp only [joinCodes_map_toNat, String.ofList_toList]
  rfl

theorem readName_quoted (s : String) (rest : List Char) :
    readName (s.toList.flatMap escapeChar ++ '"' :: rest) = some (some s, rest) := by
  rw [readName, readCodes_flatMap_escapeChar, Option.bind_eq_bind, Option.bind_some]
  simp only [joinCodes_map_toNat, Option.map_some, String.ofList_toList]
  rfl

/-! ## Numbers -/

/-- True for the characters that a number may go on with. -/
def continuesNumber (c : Char) : Bool := c.isDigit || c == '.' || c == 'e' || c == 'E'

/-- A text that does not go on with a number. -/
def Ends (rest : List Char) : Prop := ∀ c ∈ rest.head?, continuesNumber c = false

/-- At least one digit. -/
structure IsDigits (digits : List Char) : Prop where
  ne_nil : digits ≠ []
  isDigit : ∀ c ∈ digits, c.isDigit = true

/-- A number in the form of a document: digits where there have to be some, and no zero in front of
other digits. -/
structure Number.Written (n : Number) : Prop where
  whole : IsDigits n.whole
  leading : n.whole.head? = some '0' → n.whole = ['0']
  fraction : ∀ digits ∈ n.fraction, IsDigits digits
  exponent : ∀ e ∈ n.exponent, IsDigits e.digits

theorem ends_nil : Ends [] := fun _ h => absurd h (Option.not_mem_none _)

theorem ends_cons {c : Char} (h : continuesNumber c = false) : Ends (c :: rest) := by
  intro c' hc'
  rwa [← Option.mem_some.1 hc']

theorem readDigits_append (hdigits : ∀ c ∈ digits, c.isDigit = true)
    (hrest : ∀ c ∈ rest.head?, c.isDigit = false) :
    readDigits (digits ++ rest) = (digits, rest) := by
  rw [readDigits, List.span_eq_takeWhile_dropWhile, List.takeWhile_append_of_pos hdigits,
    List.dropWhile_append_of_pos hdigits]
  cases rest with
  | nil => rw [List.takeWhile_nil, List.dropWhile_nil, List.append_nil]
  | cons c rest =>
      have hc : ¬ c.isDigit = true := by rw [hrest c rfl]; exact Bool.false_ne_true
      rw [List.takeWhile_cons_of_neg hc, List.dropWhile_cons_of_neg hc, List.append_nil]

/-- What follows a number is no digit. -/
theorem Ends.isDigit_eq_false (h : Ends rest) : ∀ c ∈ rest.head?, c.isDigit = false := by
  intro c hc
  have hcontinues := h c hc
  simp only [continuesNumber, Bool.or_eq_false_iff] at hcontinues
  exact hcontinues.1.1.1

theorem readWhole_append {n : Number} (hn : n.Written)
    (hrest : ∀ c ∈ rest.head?, c.isDigit = false) :
    readWhole (n.whole ++ rest) = some (n.whole, rest) := by
  rw [readWhole, readDigits_append hn.whole.isDigit hrest]
  split
  · next hnil => exact absurd (congrArg Prod.fst hnil) hn.whole.ne_nil
  · next hzero =>
      have hwhole := congrArg Prod.fst hzero
      have hsingle := hn.leading (congrArg List.head? hwhole)
      rw [hsingle] at hwhole
      exact absurd (List.cons.inj hwhole).2 (List.cons_ne_nil _ _).symm
  · next digits rest' _ _ heq =>
      obtain ⟨rfl, rfl⟩ := Prod.mk.inj heq
      rfl

/-- The characters of the digits after the point. -/
def fractionChars : Option (List Char) → List Char
  | some digits => '.' :: digits
  | none => []

/-- The characters of the exponent part. -/
def exponentChars : Option Exponent → List Char
  | some e => e.chars
  | none => []

theorem Number.chars_eq (n : Number) :
    n.chars = (if n.negative then ['-'] else []) ++
      (n.whole ++ (fractionChars n.fraction ++ exponentChars n.exponent)) := by
  cases n with
  | mk negative whole fraction exponent =>
      cases fraction <;> cases exponent <;>
        simp only [Number.chars, fractionChars, exponentChars, List.append_assoc]

theorem readExponentDigits_append (negative : Bool) (hdigits : IsDigits digits) (hrest : Ends rest) :
    readExponentDigits negative (digits ++ rest) = some (some ⟨negative, digits⟩, rest) := by
  rw [readExponentDigits, readDigits_append hdigits.isDigit hrest.isDigit_eq_false]
  split
  · next hnil => exact absurd (congrArg Prod.fst hnil) hdigits.ne_nil
  · next heq =>
      obtain ⟨rfl, rfl⟩ := Prod.mk.inj heq
      rfl

theorem readExponent_append {exponent : Option Exponent} (h : ∀ e ∈ exponent, IsDigits e.digits)
    (hrest : Ends rest) : readExponent (exponentChars exponent ++ rest) = some (exponent, rest) := by
  cases exponent with
  | none =>
      cases rest with
      | nil => rfl
      | cons c rest =>
          have hc := hrest c rfl
          have hmark : ¬ (c = 'e' ∨ c = 'E') := by
            rintro (rfl | rfl)
            · exact absurd hc (by decide)
            · exact absurd hc (by decide)
          rw [exponentChars, List.nil_append]
          unfold readExponent
          exact if_neg hmark
  | some e =>
      have hdigits := h e rfl
      obtain ⟨negative, digits⟩ := e
      cases negative with
      | false => exact readExponentDigits_append false hdigits hrest
      | true => exact readExponentDigits_append true hdigits hrest

/-- Neither a digit nor a point stands where an exponent part may begin. -/
theorem head?_exponentChars_append (exponent : Option Exponent) (hrest : Ends rest) :
    ∀ c ∈ (exponentChars exponent ++ rest).head?, c.isDigit = false ∧ c ≠ '.' := by
  cases exponent with
  | none =>
      intro c hc
      refine ⟨hrest.isDigit_eq_false c hc, ?_⟩
      rintro rfl
      exact absurd (hrest _ hc) (by decide)
  | some e =>
      intro c hc
      rw [← Option.mem_some.1 hc]
      decide

theorem readFraction_append {fraction : Option (List Char)} (h : ∀ digits ∈ fraction, IsDigits digits)
    (hrest : ∀ c ∈ rest.head?, c.isDigit = false ∧ c ≠ '.') :
    readFraction (fractionChars fraction ++ rest) = some (fraction, rest) := by
  cases fraction with
  | none =>
      rw [fractionChars, List.nil_append, readFraction]
      rintro _ rfl
      exact (hrest '.' rfl).2 rfl
  | some digits =>
      have hdigits := h digits rfl
      rw [fractionChars, List.cons_append, readFraction,
        readDigits_append hdigits.isDigit fun c hc => (hrest c hc).1]
      split
      · next hnil => exact absurd (congrArg Prod.fst hnil) hdigits.ne_nil
      · next heq =>
          obtain ⟨rfl, rfl⟩ := Prod.mk.inj heq
          rfl

theorem head?_fractionChars_append (fraction : Option (List Char))
    (hrest : ∀ c ∈ rest.head?, c.isDigit = false ∧ c ≠ '.') :
    ∀ c ∈ (fractionChars fraction ++ rest).head?, c.isDigit = false := by
  cases fraction with
  | none => exact fun c hc => (hrest c hc).1
  | some digits =>
      intro c hc
      rw [← Option.mem_some.1 hc]
      decide

/-- The parts of a number behind its sign. -/
def readUnsigned (negative : Bool) (cs : List Char) : Option (Number × List Char) := do
  let (whole, cs) ← readWhole cs
  let (fraction, cs) ← readFraction cs
  let (exponent, cs) ← readExponent cs
  pure (⟨negative, whole, fraction, exponent⟩, cs)

theorem readNumber_minus (cs : List Char) : readNumber ('-' :: cs) = readUnsigned true cs := rfl

theorem readNumber_of_head?_ne (h : cs.head? ≠ some '-') : readNumber cs = readUnsigned false cs := by
  rw [readNumber]
  · rfl
  · rintro _ rfl
    exact h rfl

theorem readUnsigned_append {n : Number} (hn : n.Written) (hrest : Ends rest) :
    readUnsigned n.negative
      (n.whole ++ (fractionChars n.fraction ++ (exponentChars n.exponent ++ rest))) =
        some (n, rest) := by
  have hexponent := head?_exponentChars_append n.exponent hrest
  have hfraction := head?_fractionChars_append n.fraction hexponent
  simp only [readUnsigned, readWhole_append hn hfraction, readFraction_append hn.fraction hexponent,
    readExponent_append hn.exponent hrest, Option.bind_eq_bind, Option.bind_some]
  rfl

/-- The number behind a sign, or without one: its first digit is not taken for a sign. -/
theorem readNumber_chars {n : Number} (hn : n.Written) (hrest : Ends rest) :
    readNumber (n.chars ++ rest) = some (n, rest) := by
  have hunsigned := readUnsigned_append hn hrest
  rw [n.chars_eq, List.append_assoc, List.append_assoc, List.append_assoc]
  cases hsign : n.negative with
  | true =>
      rw [if_pos rfl, List.singleton_append, readNumber_minus, ← hsign]
      exact hunsigned
  | false =>
      rw [if_neg Bool.false_ne_true, List.nil_append, readNumber_of_head?_ne, ← hsign]
      · exact hunsigned
      · obtain ⟨c, cs, hwhole⟩ := List.exists_cons_of_ne_nil hn.whole.ne_nil
        rw [hwhole, List.cons_append, List.head?_cons]
        rintro ⟨⟩
        exact absurd (hn.whole.isDigit '-' (hwhole ▸ List.mem_cons_self)) (by decide)

theorem isDigits_toDigits (n : Nat) : IsDigits (Nat.toDigits 10 n) where
  ne_nil := Nat.toDigits_ne_nil
  isDigit := fun _ => Nat.isDigit_of_mem_toDigits (by decide) (by decide)

/-- Only the numeral of zero starts with a zero. -/
theorem toDigits_of_head?_eq_zero {n : Nat} (h : (Nat.toDigits 10 n).head? = some '0') :
    Nat.toDigits 10 n = ['0'] := by
  induction n using Nat.strongRecOn with
  | ind n ih =>
      by_cases hsmall : n < 10
      · rw [Nat.toDigits_of_lt_base hsmall] at h ⊢
        rw [Option.some.inj h]
      · rw [Nat.toDigits_of_base_le (by decide) (Nat.not_lt.1 hsmall),
          List.head?_append_of_ne_nil _ Nat.toDigits_ne_nil] at h
        have hfront := congrArg digitsValue (ih (n / 10) (by omega) h)
        rw [digitsValue_toDigits] at hfront
        have hzero : digitsValue ['0'] = 0 := by decide
        omega

theorem Number.Written.ofNat (n : Nat) : (Number.ofNat n).Written where
  whole := isDigits_toDigits n
  leading := toDigits_of_head?_eq_zero
  fraction := fun _ h => absurd h (Option.not_mem_none _)
  exponent := fun _ h => absurd h (Option.not_mem_none _)

theorem Number.Written.ofInt (n : Int) : (Number.ofInt n).Written where
  whole := isDigits_toDigits n.natAbs
  leading := toDigits_of_head?_eq_zero
  fraction := fun _ h => absurd h (Option.not_mem_none _)
  exponent := fun _ h => absurd h (Option.not_mem_none _)

/-! ## Values -/

/-- A value that has a text: its numbers have the form of a document, and its strings and names are
text. -/
inductive Value.Written : Value → Prop where
  | null : Written .null
  | bool (b : Bool) : Written (.bool b)
  | number {n : Number} (h : n.Written) : Written (.number n)
  | string (s : String) : Written (.string s)
  | array {items : List Value} (h : ∀ item ∈ items, Written item) : Written (.array items)
  | object {members : List (String × Value)} (h : ∀ m ∈ members, Written m.2) :
    Written (.object members)

theorem skipSpace_cons {c : Char} (h : isSpace c = false) (cs : List Char) :
    skipSpace (c :: cs) = c :: cs :=
  List.dropWhile_cons_of_neg (by rw [h]; exact Bool.false_ne_true)

/-- True for the characters that a number starts with. -/
def startsNumber (c : Char) : Bool := c == '-' || c.isDigit

theorem Number.Written.exists_cons {n : Number} (hn : n.Written) :
    ∃ c cs, n.chars = c :: cs ∧ startsNumber c = true := by
  obtain ⟨c, cs, hwhole⟩ := List.exists_cons_of_ne_nil hn.whole.ne_nil
  rw [n.chars_eq, hwhole]
  cases n.negative with
  | true => exact ⟨'-', _, rfl, by decide⟩
  | false =>
      refine ⟨c, _, rfl, ?_⟩
      rw [startsNumber, hn.whole.isDigit c (hwhole ▸ List.mem_cons_self), Bool.or_true]

theorem isSpace_of_startsNumber {c : Char} (h : startsNumber c = true) : isSpace c = false := by
  simp only [isSpace, Bool.or_eq_false_iff, beq_eq_false_iff_ne]
  refine ⟨⟨⟨?_, ?_⟩, ?_⟩, ?_⟩ <;> (rintro rfl; exact absurd h (by decide))

/-- What starts a value is not taken for the end of an array. -/
theorem Value.Written.exists_cons {v : Value} (hv : v.Written) :
    ∃ c cs, compactChars v = c :: cs ∧ isSpace c = false ∧ c ≠ ']' := by
  cases hv with
  | null => exact ⟨'n', _, rfl, by decide, by decide⟩
  | bool b =>
      cases b with
      | false => exact ⟨'f', _, rfl, by decide, by decide⟩
      | true => exact ⟨'t', _, rfl, by decide, by decide⟩
  | number hn =>
      obtain ⟨c, cs, hchars, hc⟩ := hn.exists_cons
      refine ⟨c, cs, hchars, isSpace_of_startsNumber hc, ?_⟩
      rintro rfl
      exact absurd hc (by decide)
  | string s => exact ⟨'"', _, rfl, by decide, by decide⟩
  | array h => exact ⟨'[', _, rfl, by decide, by decide⟩
  | object h => exact ⟨'\x7b', _, rfl, by decide, by decide⟩

section Reader

variable {fuel : Nat} {value : Value} {c : Char}

theorem readValue_number (h : startsNumber c = true) :
    readValue (fuel + 1) (c :: cs) = (readNumber (c :: cs)).map fun (n, rest) => (.number n, rest) := by
  rw [readValue, skipSpace_cons (isSpace_of_startsNumber h)]
  split
  case h_7 => rfl
  -- no other value starts as a number does
  all_goals
    next heq =>
      rw [(List.cons.inj heq).1] at h
      exact absurd h (by decide)

theorem readValue_items (hspace : isSpace c = false) (hclose : c ≠ ']') :
    readValue (fuel + 1) ('[' :: c :: cs) =
      (readItems fuel (c :: cs)).map fun (items, rest) => (.array items, rest) := by
  rw [readValue, skipSpace_cons (by decide)]
  simp only [skipSpace_cons hspace]
  split
  · next heq => exact absurd (List.cons.inj heq).1 hclose
  · rfl

theorem readValue_members :
    readValue (fuel + 1) ('\x7b' :: '"' :: cs) =
      (readMembers fuel ('"' :: cs)).map fun (members, rest) => (objectOf members, rest) := by
  rw [readValue, skipSpace_cons (by decide)]
  rfl

theorem readItems_last (h : readValue fuel cs = some (value, ']' :: rest)) :
    readItems (fuel + 1) cs = some ([value], rest) := by
  rw [readItems, h]
  rfl

theorem readItems_more (h : readValue fuel cs = some (value, ',' :: rest)) :
    readItems (fuel + 1) cs =
      (readItems fuel rest).map fun (items, rest) => (value :: items, rest) := by
  rw [readItems, h, Option.map_eq_bind]
  rfl

theorem readMembers_last (name : String) (h : readValue fuel cs = some (value, '\x7d' :: rest)) :
    readMembers (fuel + 1) (quoted name ++ ':' :: cs) = some (some [(name, value)], rest) := by
  rw [quoted_append, readMembers, skipSpace_cons (by decide)]
  simp only [readName_quoted, Option.bind_eq_bind, Option.bind_some,
    skipSpace_cons (show isSpace ':' = false by decide), h]
  rfl

theorem readMembers_more (name : String) (h : readValue fuel cs = some (value, ',' :: rest)) :
    readMembers (fuel + 1) (quoted name ++ ':' :: cs) =
      (readMembers fuel rest).map fun (members, rest) =>
        (consMember (some name) value members, rest) := by
  rw [quoted_append, readMembers, skipSpace_cons (by decide), Option.map_eq_bind]
  simp only [readName_quoted, Option.bind_eq_bind, Option.bind_some,
    skipSpace_cons (show isSpace ':' = false by decide), h]
  rfl

end Reader

/-- The value is read back in front of every text that does not go on with a number, as soon as the
counter is no less than the length of its text. -/
def Value.Reads (v : Value) : Prop :=
  ∀ fuel rest, (compactChars v).length ≤ fuel → Ends rest →
    readValue fuel (compactChars v ++ rest) = some (v, rest)

/-- The items of an array are read one after the other, each in front of its comma or bracket. -/
theorem readItems_compactItems (rest : List Char) {items : List Value}
    (hitems : ∀ item ∈ items, item.Reads) (hne : items ≠ []) {fuel : Nat}
    (hfuel : (compactItems items).length ≤ fuel) :
    readItems fuel (compactItems items ++ rest) = some (items, rest) := by
  induction items generalizing fuel with
  | nil => exact absurd rfl hne
  | cons item items ih =>
      have hitem := hitems item List.mem_cons_self
      cases items with
      | nil =>
          simp only [compactItems, List.append_assoc, List.singleton_append, List.length_append,
            List.length_singleton] at hfuel ⊢
          obtain ⟨fuel, rfl⟩ := Nat.exists_eq_add_one.2 (show 0 < fuel by omega)
          apply readItems_last
          exact hitem fuel _ (by omega) (ends_cons (by decide))
      | cons next more =>
          simp only [compactItems, List.append_assoc, List.cons_append, List.length_append,
            List.length_cons] at hfuel ⊢
          obtain ⟨fuel, rfl⟩ := Nat.exists_eq_add_one.2 (show 0 < fuel by omega)
          have hmore : readItems fuel (compactItems (next :: more) ++ rest) =
              some (next :: more, rest) :=
            ih (fun item h => hitems item (List.mem_cons_of_mem _ h)) (List.cons_ne_nil _ _) (by omega)
          rw [readItems_more (hitem fuel _ (by omega) (ends_cons (by decide))), hmore]
          rfl

/-- So are the members of an object, each behind its name. -/
theorem readMembers_compactMembers (rest : List Char) {members : List (String × Value)}
    (hmembers : ∀ m ∈ members, m.2.Reads) (hne : members ≠ []) {fuel : Nat}
    (hfuel : (compactMembers members).length ≤ fuel) :
    readMembers fuel (compactMembers members ++ rest) = some (some members, rest) := by
  induction members generalizing fuel with
  | nil => exact absurd rfl hne
  | cons member members ih =>
      have hvalue : member.2.Reads := hmembers member List.mem_cons_self
      cases members with
      | nil =>
          simp only [compactMembers, List.append_assoc, List.cons_append, List.nil_append,
            List.length_append, List.length_cons] at hfuel ⊢
          obtain ⟨fuel, rfl⟩ := Nat.exists_eq_add_one.2 (show 0 < fuel by omega)
          apply readMembers_last
          exact hvalue fuel _ (by omega) (ends_cons (by decide))
      | cons next more =>
          simp only [compactMembers, List.append_assoc, List.cons_append, List.length_append,
            List.length_cons] at hfuel ⊢
          obtain ⟨fuel, rfl⟩ := Nat.exists_eq_add_one.2 (show 0 < fuel by omega)
          have hmore : readMembers fuel (compactMembers (next :: more) ++ rest) =
              some (some (next :: more), rest) :=
            ih (fun m h => hmembers m (List.mem_cons_of_mem _ h)) (List.cons_ne_nil _ _) (by omega)
          rw [readMembers_more _ (hvalue fuel _ (by omega) (ends_cons (by decide))), hmore]
          rfl

/-- The counter is never used up where a value starts. -/
theorem Value.Written.reads_of_succ {v : Value} (hv : v.Written)
    (h : ∀ fuel rest, (compactChars v).length ≤ fuel + 1 → Ends rest →
      readValue (fuel + 1) (compactChars v ++ rest) = some (v, rest)) : v.Reads := by
  intro fuel rest hfuel hrest
  cases fuel with
  | zero =>
      obtain ⟨c, cs, hchars, -⟩ := hv.exists_cons
      rw [hchars] at hfuel
      exact absurd hfuel (Nat.not_succ_le_zero _)
  | succ fuel => exact h fuel rest hfuel hrest

theorem reads_number {n : Number} (hn : n.Written) : (Value.number n).Reads := by
  apply (Value.Written.number hn).reads_of_succ
  intro fuel rest _ hrest
  obtain ⟨c, cs, hchars, hc⟩ := hn.exists_cons
  rw [compactChars, hchars, List.cons_append, readValue_number hc, ← List.cons_append, ← hchars,
    readNumber_chars hn hrest]
  rfl

theorem reads_string (s : String) : (Value.string s).Reads := by
  apply (Value.Written.string s).reads_of_succ
  intro fuel rest _ _
  rw [compactChars, quoted_append, readValue, skipSpace_cons (by decide)]
  exact readString_quoted s rest

theorem reads_array {items : List Value} (hitems : ∀ item ∈ items, item.Written)
    (hreads : ∀ item ∈ items, item.Reads) : (Value.array items).Reads := by
  apply (Value.Written.array hitems).reads_of_succ
  intro fuel rest hfuel _
  rw [compactChars, List.length_cons] at hfuel
  rw [compactChars, List.cons_append]
  cases items with
  | nil => rfl
  | cons item items =>
      have hread := readItems_compactItems rest hreads (List.cons_ne_nil _ _)
        (Nat.le_of_succ_le_succ hfuel)
      -- the first item is not taken for the closing bracket
      obtain ⟨c, cs, hchars, hspace, hclose⟩ := (hitems item List.mem_cons_self).exists_cons
      obtain ⟨more, hitem⟩ : ∃ more, compactItems (item :: items) = c :: more := by
        cases items <;> simp only [compactItems, hchars, List.cons_append] <;> exact ⟨_, rfl⟩
      rw [hitem, List.cons_append] at hread ⊢
      rw [readValue_items hspace hclose, hread]
      rfl

theorem reads_object {members : List (String × Value)} (hmembers : ∀ m ∈ members, m.2.Written)
    (hreads : ∀ m ∈ members, m.2.Reads) : (Value.object members).Reads := by
  apply (Value.Written.object hmembers).reads_of_succ
  intro fuel rest hfuel _
  rw [compactChars, List.length_cons] at hfuel
  rw [compactChars, List.cons_append]
  cases members with
  | nil => rfl
  | cons member members =>
      have hread := readMembers_compactMembers rest hreads (List.cons_ne_nil _ _)
        (Nat.le_of_succ_le_succ hfuel)
      obtain ⟨more, hmember⟩ : ∃ more, compactMembers (member :: members) = '"' :: more := by
        cases members <;> simp only [compactMembers, quoted, List.cons_append] <;> exact ⟨_, rfl⟩
      rw [hmember, List.cons_append] at hread ⊢
      rw [readValue_members, hread]
      rfl

/-- Every value that has a text is read back from it. -/
theorem Value.Written.reads {v : Value} (hv : v.Written) : v.Reads := by
  induction hv with
  | null => exact Written.null.reads_of_succ fun _ _ _ _ => rfl
  | bool b => cases b <;> exact (Written.bool _).reads_of_succ fun _ _ _ _ => rfl
  | number hn => exact reads_number hn
  | string s => exact reads_string s
  | array hitems ih => exact reads_array hitems ih
  | object hmembers ih => exact reads_object hmembers ih

/-- The text of a value is a document, and holds the value. -/
theorem parse?_compact {v : Value} (hv : v.Written) : parse? (compact v) = some v := by
  have hread := hv.reads (2 * (compactChars v).length + 2) [] (by omega) ends_nil
  rw [List.append_nil] at hread
  rw [parse?, compact, String.toList_ofList, hread]
  rfl

end TensorLowering.Json
