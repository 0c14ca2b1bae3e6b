import TensorLowering.Json.Number

/-!
# The grammar of work sizes

`Derives` is the grammar: which texts are sums, products and factors, and which expression each of
them stands for. `Reads` reads a text from left to right, a chain of operands one after the other,
and leaves what does not belong to it. Both say the same of whole texts; and since reading is
determined by the text, no text stands for two expressions.

## Main statements

* `Reads.unique`: a text can be read in one way only.
* `reads_iff_derives`: reading a whole text is deriving it.
* `Derives.unique`: the grammar is unambiguous.

## Implementation notes

Sums and products are both chains of operands, and differ in their operators and in what their
operands are; so there is one rule for each step of a chain. A chain associates to the left: its
derivation ends with the last operator, while its reading starts with the first operand and carries
the expression so far along (`Stage.tail`).
-/

namespace TensorLowering.Overlay.WorkSize

open Json

/-- The letters that stand for extents. -/
inductive Letter where
  | b
  | f
  | y
  | x
  deriving DecidableEq, Repr

/-- The letter that a character is, in either case. -/
def Letter.ofChar? : Char → Option Letter
  | 'B' | 'b' => some .b
  | 'F' | 'f' => some .f
  | 'Y' | 'y' => some .y
  | 'X' | 'x' => some .x
  | _ => none

/-- The chains of operands: sums and products. -/
inductive Chain where
  | sum
  | product
  deriving DecidableEq, Repr

/-- The operators between two operands of a chain. -/
inductive Operator where
  | add
  | subtract
  | multiply
  | divide
  | remainder
  deriving DecidableEq, Repr

namespace Operator

/-- How the operator is written. -/
def symbol : Operator → Char
  | add => '+'
  | subtract => '-'
  | multiply => '*'
  | divide => '/'
  | remainder => '%'

/-- The chain that the operator belongs to. -/
def chain : Operator → Chain
  | add | subtract => .sum
  | multiply | divide | remainder => .product

end Operator

/-- The operator of a chain that is written as the character. -/
def Chain.operator? : Chain → Char → Option Operator
  | sum, '+' => some .add
  | sum, '-' => some .subtract
  | product, '*' => some .multiply
  | product, '/' => some .divide
  | product, '%' => some .remainder
  | _, _ => none

theorem Chain.operator?_eq_some_iff {c : Chain} {s : Char} {op : Operator} :
    c.operator? s = some op ↔ op.chain = c ∧ op.symbol = s := by
  constructor
  · intro h
    unfold operator? at h
    split at h
    all_goals
      cases h
      try exact ⟨rfl, rfl⟩
  · rintro ⟨rfl, rfl⟩
    cases op <;> rfl

/-- An expression over the letters. -/
inductive Expression where
  | literal (value : Nat)
  | letter (l : Letter)
  | negate (operand : Expression)
  | binary (op : Operator) (left right : Expression)
  deriving DecidableEq, Repr

/-- The parts of a text: chains, and the factors that products are made of. -/
inductive Part where
  | chain (c : Chain)
  | factor
  deriving DecidableEq, Repr

/-- What stands between the operators of a chain. -/
def Chain.operand : Chain → Part
  | sum => .chain .product
  | product => .factor

/-- The grammar, with the expression that each text stands for:

    sum     = product | sum + product | sum - product
    product = factor | product * factor | product / factor | product % factor
    factor  = ( sum ) | - factor | digits | letter
-/
inductive Derives : Part → List Char → Expression → Prop where
  | operand {c : Chain} {cs : List Char} {e : Expression} (whole : Derives c.operand cs e) :
      Derives (.chain c) cs e
  | join {c : Chain} {op : Operator} {cs ds : List Char} {a b : Expression} (belongs : op.chain = c)
      (left : Derives (.chain c) cs a) (right : Derives c.operand ds b) :
      Derives (.chain c) (cs ++ op.symbol :: ds) (.binary op a b)
  | parens {cs : List Char} {e : Expression} (inner : Derives (.chain .sum) cs e) :
      Derives .factor ('(' :: (cs ++ [')'])) e
  | negate {cs : List Char} {e : Expression} (inner : Derives .factor cs e) :
      Derives .factor ('-' :: cs) (.negate e)
  | literal {cs : List Char} (nonempty : cs ≠ []) (digits : ∀ c ∈ cs, c.isDigit = true) :
      Derives .factor cs (.literal (digitsValue cs))
  | letter {c : Char} {l : Letter} (known : Letter.ofChar? c = some l) :
      Derives .factor [c] (.letter l)

/-- What is read next: a part, or the further operands of a chain behind an expression. -/
inductive Stage where
  | part (p : Part)
  | tail (c : Chain) (left : Expression)

/-- Reading a text from left to right: the expression that is read, and the text that is left. -/
inductive Reads : Stage → List Char → Expression → List Char → Prop where
  | chain {c : Chain} {cs mid rest : List Char} {a e : Expression}
      (first : Reads (.part c.operand) cs a mid) (further : Reads (.tail c a) mid e rest) :
      Reads (.part (.chain c)) cs e rest
  | join {c : Chain} {s : Char} {op : Operator} {cs mid rest : List Char} {a b e : Expression}
      (belongs : c.operator? s = some op) (operand : Reads (.part c.operand) cs b mid)
      (further : Reads (.tail c (.binary op a b)) mid e rest) :
      Reads (.tail c a) (s :: cs) e rest
  | stop {c : Chain} {a : Expression} {rest : List Char}
      (ends : ∀ s ∈ rest.head?, c.operator? s = none) : Reads (.tail c a) rest a rest
  | parens {s : Char} {cs rest : List Char} {e : Expression} (opens : s = '(')
      (inner : Reads (.part (.chain .sum)) cs e (')' :: rest)) :
      Reads (.part .factor) (s :: cs) e rest
  | negate {s : Char} {cs rest : List Char} {e : Expression} (minus : s = '-')
      (inner : Reads (.part .factor) cs e rest) : Reads (.part .factor) (s :: cs) (.negate e) rest
  | literal {s : Char} {cs : List Char} (digit : s.isDigit = true) :
      Reads (.part .factor) (s :: cs) (.literal (digitsValue ((s :: cs).takeWhile Char.isDigit)))
        ((s :: cs).dropWhile Char.isDigit)
  | letter {s : Char} {l : Letter} {cs : List Char} (known : Letter.ofChar? s = some l) :
      Reads (.part .factor) (s :: cs) (.letter l) cs

/-- What starts a factor decides which factor it is. -/
theorem Letter.ofChar?_eq_none {s : Char} (h : s = '(' ∨ s = '-' ∨ s.isDigit = true) :
    ofChar? s = none := by
  unfold ofChar?
  split
  all_goals first | rfl | exact absurd h (by decide)

/-- A text can be read in one way only. -/
theorem Reads.unique {stage : Stage} {cs rest rest' : List Char} {e e' : Expression}
    (h : Reads stage cs e rest) (h' : Reads stage cs e' rest') : e = e' ∧ rest = rest' := by
  induction h generalizing e' rest' with
  | chain first further ihfirst ihfurther =>
      cases h' with
      | chain first' further' =>
          obtain ⟨rfl, rfl⟩ := ihfirst first'
          exact ihfurther further'
  | join belongs operand further ihoperand ihfurther =>
      cases h' with
      | join belongs' operand' further' =>
          obtain rfl := Option.some.inj (belongs.symm.trans belongs')
          obtain ⟨rfl, rfl⟩ := ihoperand operand'
          exact ihfurther further'
      | stop ends => simp [belongs] at ends
  | stop ends =>
      cases h' with
      | join belongs' => simp [belongs'] at ends
      | stop => exact ⟨rfl, rfl⟩
  | parens opens inner ih =>
      subst opens
      cases h' with
      | parens _ inner' =>
          obtain ⟨rfl, hrest⟩ := ih inner'
          exact ⟨rfl, List.tail_eq_of_cons_eq hrest⟩
      | negate minus => exact absurd minus (by decide)
      | literal digit => exact absurd digit (by decide)
      | letter known => simp [Letter.ofChar?] at known
  | negate minus inner ih =>
      subst minus
      cases h' with
      | parens opens => exact absurd opens (by decide)
      | negate _ inner' =>
          obtain ⟨rfl, rfl⟩ := ih inner'
          exact ⟨rfl, rfl⟩
      | literal digit => exact absurd digit (by decide)
      | letter known => simp [Letter.ofChar?] at known
  | literal digit =>
      cases h' with
      | parens opens => exact absurd digit (opens ▸ by decide)
      | negate minus => exact absurd digit (minus ▸ by decide)
      | literal => exact ⟨rfl, rfl⟩
      | letter known => simp [Letter.ofChar?_eq_none (.inr (.inr digit))] at known
  | letter known =>
      cases h' with
      | parens opens => simp [Letter.ofChar?_eq_none (.inl opens)] at known
      | negate minus => simp [Letter.ofChar?_eq_none (.inr (.inl minus))] at known
      | literal digit => simp [Letter.ofChar?_eq_none (.inr (.inr digit))] at known
      | letter known' =>
          obtain rfl := Option.some.inj (known.symm.trans known')
          exact ⟨rfl, rfl⟩

/-- A part of a text ends in front of a character: the character is no further digit of a literal,
and no operator of a chain that the part ends with. -/
def Part.EndsAt : Part → Char → Prop
  | factor, s => s.isDigit = false
  | chain .product, s => s.isDigit = false ∧ Chain.product.operator? s = none
  | chain .sum, s =>
    s.isDigit = false ∧ Chain.product.operator? s = none ∧ Chain.sum.operator? s = none

/-- The operators of a chain end its operands. -/
theorem Operator.operand_endsAt (op : Operator) : op.chain.operand.EndsAt op.symbol := by
  cases op <;> simp [chain, Chain.operand, Part.EndsAt, symbol, Chain.operator?]

theorem Part.EndsAt.operand {c : Chain} {s : Char} (h : (chain c).EndsAt s) :
    c.operand.EndsAt s := by
  cases c with
  | sum => exact ⟨h.1, h.2.1⟩
  | product => exact h.1

theorem Part.EndsAt.operator?_eq_none {c : Chain} {s : Char} (h : (chain c).EndsAt s) :
    c.operator? s = none := by
  cases c with
  | sum => exact h.2.2
  | product => exact h.2

/-- Digits are read up to what is no digit. -/
theorem takeWhile_isDigit_append {cs rest : List Char} (digits : ∀ c ∈ cs, c.isDigit = true)
    (hrest : ∀ s ∈ rest.head?, s.isDigit = false) :
    (cs ++ rest).takeWhile Char.isDigit = cs ∧ (cs ++ rest).dropWhile Char.isDigit = rest := by
  rw [List.takeWhile_append_of_pos digits, List.dropWhile_append_of_pos digits]
  cases rest with
  | nil => simp
  | cons s rest =>
      have hs : s.isDigit = false := hrest s rfl
      simp [hs]

/-- What reading has to do with a text that is derived, whatever stands behind the text: a factor is
read, and a chain is read up to its last operand. -/
def Part.ReadsOn (p : Part) (cs : List Char) (e : Expression) : Prop :=
  match p with
  | factor => ∀ rest, (∀ s ∈ rest.head?, factor.EndsAt s) →
      Reads (.part factor) (cs ++ rest) e rest
  | chain c => ∀ mid e' rest, (∀ s ∈ mid.head?, c.operand.EndsAt s) →
      Reads (.tail c e) mid e' rest → Reads (.part (chain c)) (cs ++ mid) e' rest

/-- A part is read where it ends. -/
theorem Part.ReadsOn.reads {p : Part} {cs : List Char} {e : Expression} (h : p.ReadsOn cs e)
    {rest : List Char} (hrest : ∀ s ∈ rest.head?, p.EndsAt s) :
    Reads (.part p) (cs ++ rest) e rest := by
  cases p with
  | factor => exact h rest hrest
  | chain c =>
      apply h rest e rest fun s hs => (hrest s hs).operand
      exact .stop fun s hs => (hrest s hs).operator?_eq_none

/-- Reading goes along every derivation. -/
theorem Derives.readsOn {p : Part} {cs : List Char} {e : Expression} (h : Derives p cs e) :
    p.ReadsOn cs e := by
  induction h with
  | operand whole ih =>
      intro mid e' rest hmid htail
      exact .chain (ih.reads hmid) htail
  | @join c op cs ds a b belongs left right ihleft ihright =>
      subst belongs
      intro mid e' rest hmid htail
      rw [List.append_assoc, List.cons_append]
      -- The operands on the left are read up to the operator, which ends the last of them.
      apply ihleft
      · intro s hs
        obtain rfl := Option.some.inj hs
        exact op.operand_endsAt
      · exact .join (Chain.operator?_eq_some_iff.2 ⟨rfl, rfl⟩) (ihright.reads hmid) htail
  | @parens cs e inner ih =>
      intro rest hrest
      have hclose : Reads (.part (.chain .sum)) (cs ++ ')' :: rest) e (')' :: rest) := by
        apply ih.reads
        intro s hs
        obtain rfl := Option.some.inj hs
        simp [Part.EndsAt, Chain.operator?]
      rw [List.cons_append, List.append_assoc]
      exact .parens rfl hclose
  | negate inner ih =>
      intro rest hrest
      exact .negate rfl (ih rest hrest)
  | @literal cs nonempty digits =>
      intro rest hrest
      obtain ⟨hdigits, hleft⟩ := takeWhile_isDigit_append digits hrest
      obtain ⟨s, cs, rfl⟩ := List.exists_cons_of_ne_nil nonempty
      have hread := @Reads.literal s (cs ++ rest) (digits s List.mem_cons_self)
      rw [← List.cons_append, hdigits, hleft] at hread
      exact hread
  | letter known =>
      intro rest _
      exact .letter known

/-- What was read of a text is derived: a part by itself, and the further operands of a chain behind
whatever the expression in front of them was derived from. -/
def Stage.Derived (stage : Stage) (cs : List Char) (e : Expression) : Prop :=
  match stage with
  | part p => Derives p cs e
  | tail c left => ∀ ds, Derives (.chain c) ds left → Derives (.chain c) (ds ++ cs) e

/-- What is read is derived. -/
theorem Reads.derived {stage : Stage} {cs rest : List Char} {e : Expression}
    (h : Reads stage cs e rest) : ∃ ds, cs = ds ++ rest ∧ stage.Derived ds e := by
  induction h with
  | chain first further ihfirst ihfurther =>
      obtain ⟨ds, rfl, hfirst⟩ := ihfirst
      obtain ⟨ds', rfl, hfurther⟩ := ihfurther
      exact ⟨ds ++ ds', by rw [List.append_assoc], hfurther ds (.operand hfirst)⟩
  | @join c s op cs mid rest a b e belongs operand further ihoperand ihfurther =>
      obtain ⟨ds, rfl, hoperand⟩ := ihoperand
      obtain ⟨ds', rfl, hfurther⟩ := ihfurther
      obtain ⟨hchain, rfl⟩ := Chain.operator?_eq_some_iff.1 belongs
      refine ⟨op.symbol :: ds ++ ds', by simp, ?_⟩
      -- Whatever is in front grows by the operator and its operand, and then by what follows.
      intro before hbefore
      have hjoined := hfurther _ (.join hchain hbefore hoperand)
      rwa [List.append_assoc] at hjoined
  | stop =>
      refine ⟨[], rfl, ?_⟩
      intro ds hds
      rwa [List.append_nil]
  | parens opens inner ih =>
      subst opens
      obtain ⟨ds, rfl, hinner⟩ := ih
      exact ⟨'(' :: (ds ++ [')']), by simp, .parens hinner⟩
  | negate minus inner ih =>
      subst minus
      obtain ⟨ds, rfl, hinner⟩ := ih
      exact ⟨'-' :: ds, rfl, .negate hinner⟩
  | @literal s cs digit =>
      refine ⟨(s :: cs).takeWhile Char.isDigit, (List.takeWhile_append_dropWhile).symm, ?_⟩
      refine .literal ?_ (List.all_eq_true.1 List.all_takeWhile)
      simp [digit]
  | letter known => exact ⟨[_], rfl, .letter known⟩

/-- Reading a whole text is deriving it. -/
theorem reads_iff_derives {p : Part} {cs : List Char} {e : Expression} :
    Reads (.part p) cs e [] ↔ Derives p cs e := by
  constructor
  · intro h
    obtain ⟨ds, rfl, hds⟩ := h.derived
    rwa [List.append_nil]
  · intro h
    have hread : Reads (.part p) (cs ++ []) e [] := h.readsOn.reads (by simp)
    rwa [List.append_nil] at hread

/-- The grammar is unambiguous: a text stands for one expression at most. -/
theorem Derives.unique {p : Part} {cs : List Char} {e e' : Expression} (h : Derives p cs e)
    (h' : Derives p cs e') : e = e' :=
  ((reads_iff_derives.2 h).unique (reads_iff_derives.2 h')).1

/-- The text that is left behind a part is no longer than the text was. -/
theorem Reads.length_le {stage : Stage} {cs rest : List Char} {e : Expression}
    (h : Reads stage cs e rest) : rest.length ≤ cs.length := by
  obtain ⟨ds, rfl, -⟩ := h.derived
  rw [List.length_append]
  exact Nat.le_add_left _ _

end TensorLowering.Overlay.WorkSize
