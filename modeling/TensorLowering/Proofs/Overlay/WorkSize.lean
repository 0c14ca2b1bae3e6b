import Mathlib.Algebra.Group.Int.Defs
import Mathlib.Algebra.Group.Nat.Defs
import Mathlib.Data.List.TakeDrop
import TensorLowering.Overlay.WorkSize
import TensorLowering.Proofs.Outcome
import TensorLowering.Proofs.Overlay.Grammar

/-!
# Work sizes follow their grammar

Reading a text and working out its value are one pass. What that pass returns is what the grammar
says: the expression that the text stands for, worked out exactly, provided that every value on the
way is a signed word and that no operator is applied to operands that it does not take. And once
there is fuel enough for the text, more fuel changes nothing.

## Main statements

* `sound`: what is read is an expression of the grammar, with its value.
* `Reads.readStage_eq`: an expression of the grammar that has a value is read.
* `stable`: further fuel changes neither a value nor a fault.
* `evaluateWorkSize_iff`: work sizes are the values of the expressions of the grammar.

## Implementation notes

The readers of a sum and of a product do the same with different operators, and so do those of their
further operands; `readPart` and `readTail` are these readers with the chain as an argument. A stage
(`Stage`) puts both under one name. The further operands of a chain are read behind the value so
far, while the grammar speaks of the expression so far (`readStage`).
-/

namespace TensorLowering.Overlay.WorkSize

open Json Text

/-! ## Values -/

/-- The words are the integers from `-2 ^ 63` up to `2 ^ 63`. -/
theorem fits_iff {n : Int} : fits n = true ↔ -2 ^ 63 ≤ n ∧ n < 2 ^ 63 := by
  have hmin : Int64.minValue.toInt = -2 ^ 63 := by decide
  have hmax : Int64.maxValue.toInt = 2 ^ 63 - 1 := by decide
  rw [fits, hmin, hmax, Bool.and_eq_true, decide_eq_true_eq, decide_eq_true_eq]
  omega

/-- A value is let through when it is a word. -/
theorem checked_eq_ok_iff {n m : Int} : checked n = .ok m ↔ fits n = true ∧ n = m := by
  rw [checked]
  split
  · next h => simp [h]
  · next h => simp [h]

/-- A literal is read when its value is a word. -/
theorem readLiteral_eq_ok_iff {digits rest rest' : List Char} {v : Int} :
    readLiteral digits rest = .ok (v, rest') ↔
      fits (digitsValue digits) = true ∧ (digitsValue digits : Int) = v ∧ rest = rest' := by
  have hfits : fits (digitsValue digits) = true ↔ digitsValue digits < signedLimit := by
    rw [fits_iff, signedLimit]
    omega
  rw [hfits, readLiteral]
  split
  · next h => simp [h]
  · next h => simp [h]

/-- A quotient of words is no word in one case only. -/
theorem fits_tdiv_iff {a b : Int} (ha : fits a = true) (hb : b ≠ 0) :
    fits (a.tdiv b) = true ↔ ¬ (a = Int64.minValue.toInt ∧ b = -1) := by
  have hmin : Int64.minValue.toInt = -2 ^ 63 := by decide
  rw [hmin, fits_iff]
  rw [fits_iff] at ha
  by_cases hone : b = 1 ∨ b = -1
  · rcases hone with rfl | rfl
    · rw [Int.tdiv_one]
      omega
    · rw [Int.tdiv_neg, Int.tdiv_one]
      omega
  · have hquotient : (a.tdiv b).natAbs ≤ 2 ^ 62 := by
      calc
        (a.tdiv b).natAbs = a.natAbs / b.natAbs := Int.natAbs_tdiv a b
        _ ≤ a.natAbs / 2 := Nat.div_le_div_left (by omega) (by omega)
        _ ≤ 2 ^ 62 := by omega
    omega

/-- A remainder by a word is a word. -/
theorem fits_tmod {a b : Int} (hb : fits b = true) (hne : b ≠ 0) : fits (a.tmod b) = true := by
  rw [fits_iff] at hb ⊢
  have hlt : (a.tmod b).natAbs < b.natAbs := by
    rw [Int.natAbs_tmod]
    exact Nat.mod_lt _ (by omega)
  omega

namespace Operator

/-- The exact result of the operator; division truncates. -/
def apply : Operator → Int → Int → Int
  | add, a, b => a + b
  | subtract, a, b => a - b
  | multiply, a, b => a * b
  | divide, a, b => a.tdiv b
  | remainder, a, b => a.tmod b

/-- The operands that the operator takes: nothing is divided by zero, and the smallest word is not
divided by minus one, for the quotient nor for the remainder. -/
def Allows : Operator → Int → Int → Prop
  | divide, a, b | remainder, a, b => b ≠ 0 ∧ ¬ (a = Int64.minValue.toInt ∧ b = -1)
  | _, _, _ => True

instance decidableAllows : (op : Operator) → (a b : Int) → Decidable (op.Allows a b)
  | divide, a, b | remainder, a, b =>
    inferInstanceAs (Decidable (b ≠ 0 ∧ ¬ (a = Int64.minValue.toInt ∧ b = -1)))
  | add, _, _ | subtract, _, _ | multiply, _, _ => inferInstanceAs (Decidable True)

/-- The operator as it is applied while a text is read. -/
def check (op : Operator) (a b : Int) : Except WorkSizeFault Int :=
  match op.chain with
  | .sum => additive op.symbol a b
  | .product => multiplicative op.symbol a b

/-- An operator is applied to words when it takes them and its result is a word. -/
theorem check_eq_ok_iff {op : Operator} {a b c : Int} (ha : fits a = true) (hb : fits b = true) :
    op.check a b = .ok c ↔ op.Allows a b ∧ fits (op.apply a b) = true ∧ op.apply a b = c := by
  cases op with
  | add => simp [check, chain, additive, symbol, checked_eq_ok_iff, Allows, apply]
  | subtract => simp [check, chain, additive, symbol, checked_eq_ok_iff, Allows, apply]
  | multiply => simp [check, chain, multiplicative, symbol, checked_eq_ok_iff, Allows, apply]
  | divide =>
      simp only [check, chain, multiplicative, symbol, Allows, apply]
      by_cases hzero : b = 0
      · simp [hzero]
      · rw [← fits_tdiv_iff ha hzero]
        simp [hzero, checked_eq_ok_iff]
  | remainder =>
      simp only [check, chain, multiplicative, symbol, Allows, apply]
      by_cases hzero : b = 0
      · simp [hzero]
      · rw [← fits_tdiv_iff ha hzero]
        simp [hzero, Outcome.map_eq_ok_iff, checked_eq_ok_iff, fits_tmod hb hzero]

end Operator

namespace Expression

variable (ρ : Letter → Int)

/-- The exact value of an expression over the values of the letters. -/
def value : Expression → Int
  | literal n => n
  | letter l => ρ l
  | negate e => -e.value
  | binary op a b => op.apply a.value b.value

/-- Every literal and every value on the way is a word, and every operator takes its operands. -/
def Fits : Expression → Prop
  | literal n => fits n = true
  | letter l => fits (ρ l) = true
  | negate e => e.Fits ∧ fits (-e.value ρ) = true
  | binary op a b => a.Fits ∧ b.Fits ∧ op.Allows (a.value ρ) (b.value ρ) ∧
      fits (op.apply (a.value ρ) (b.value ρ)) = true

instance decidableFits (ρ : Letter → Int) : (e : Expression) → Decidable (e.Fits ρ)
  | literal n => inferInstanceAs (Decidable (fits n = true))
  | letter l => inferInstanceAs (Decidable (fits (ρ l) = true))
  | negate e =>
    have := decidableFits ρ e
    inferInstanceAs (Decidable (e.Fits ρ ∧ fits (-e.value ρ) = true))
  | binary op a b =>
    have := decidableFits ρ a
    have := decidableFits ρ b
    inferInstanceAs (Decidable (a.Fits ρ ∧ b.Fits ρ ∧ op.Allows (a.value ρ) (b.value ρ) ∧
      fits (op.apply (a.value ρ) (b.value ρ)) = true))

variable {ρ}

/-- The value of an expression is one of the values on the way. -/
theorem Fits.fits_value {e : Expression} (h : e.Fits ρ) : fits (e.value ρ) = true := by
  cases e with
  | literal n => exact h
  | letter l => exact h
  | negate e => exact h.2
  | binary op a b => exact h.2.2.2

end Expression

/-! ## Readers -/

/-- The extent under a letter. -/
def Letter.extent (d : WorkExtents) : Letter → Nat
  | b => d.b
  | f => d.f
  | y => d.y
  | x => d.x

/-- The letters that are known are those of the grammar. -/
theorem extent?_eq (d : WorkExtents) (c : Char) :
    d.extent? c = (Letter.ofChar? c).map (Letter.extent d) := by
  unfold WorkExtents.extent?
  split
  case h_9 hB hb hF hf hY hy hX hx => simp [Letter.ofChar?]
  all_goals rfl

/-- The extents themselves. -/
def exactExtent (d : WorkExtents) (l : Letter) : Int := l.extent d

/-- The extents as they are read: each as a signed word. -/
def signedExtent (d : WorkExtents) (l : Letter) : Int := signedWord (l.extent d)

theorem fits_signedExtent (d : WorkExtents) (l : Letter) : fits (signedExtent d l) = true := by
  rw [fits_iff, signedExtent, signedWord]
  exact ⟨Int64.le_toInt _, Int64.toInt_lt _⟩

/-- An extent below the limit of signed words is read as itself. -/
theorem signedExtent_eq {d : WorkExtents} {l : Letter} (h : l.extent d < 2 ^ 63) :
    signedExtent d l = exactExtent d l :=
  Int64.toInt_ofNat_of_lt h

/-- The reader of a part. -/
def readPart (d : WorkExtents) (fuel : Nat) : Part → List Char → Reading
  | .chain .sum => readSum d fuel
  | .chain .product => readProduct d fuel
  | .factor => readFactor d fuel

/-- The reader of the further operands of a chain. -/
def readTail (d : WorkExtents) (fuel : Nat) : Chain → Int → List Char → Reading
  | .sum => readSumTail d fuel
  | .product => readProductTail d fuel

variable (d : WorkExtents) (fuel : Nat)

/-- A chain is read operand by operand. -/
theorem readPart_chain (c : Chain) (cs : List Char) :
    readPart d (fuel + 1) (.chain c) cs = (do
      let (value, rest) ← readPart d fuel c.operand cs
      readTail d fuel c value rest) := by
  cases c <;> rfl

theorem readTail_nil (c : Chain) (value : Int) :
    readTail d (fuel + 1) c value [] = .ok (value, []) := by
  cases c <;> rfl

/-- Behind an operator of the chain there is a further operand. -/
theorem readTail_cons_of_operator {c : Chain} {s : Char} {op : Operator}
    (h : c.operator? s = some op) (value : Int) (cs : List Char) :
    readTail d (fuel + 1) c value (s :: cs) = (do
      let (operand, rest) ← readPart d fuel c.operand cs
      readTail d fuel c (← op.check value operand) rest) := by
  obtain ⟨rfl, rfl⟩ := Chain.operator?_eq_some_iff.1 h
  cases op <;> rfl

/-- A chain ends in front of anything else. -/
theorem readTail_cons_of_none {c : Chain} {s : Char} (h : c.operator? s = none) (value : Int)
    (cs : List Char) : readTail d (fuel + 1) c value (s :: cs) = .ok (value, s :: cs) := by
  have hne : ∀ op : Operator, op.chain = c → s ≠ op.symbol := by
    rintro op hop rfl
    rw [Chain.operator?_eq_some_iff.2 ⟨hop, rfl⟩] at h
    cases h
  cases c with
  | sum =>
      rw [readTail, readSumTail, if_neg]
      exact not_or.2 ⟨hne .add rfl, hne .subtract rfl⟩
  | product =>
      rw [readTail, readProductTail, if_neg]
      exact not_or.2 ⟨hne .multiply rfl, not_or.2 ⟨hne .divide rfl, hne .remainder rfl⟩⟩

theorem readFactor_parens (cs : List Char) :
    readPart d (fuel + 1) .factor ('(' :: cs) = (do
      match ← readPart d fuel (.chain .sum) cs with
      | (value, ')' :: rest) => .ok (value, rest)
      | _ => .error .missingClose) := rfl

theorem readFactor_negate (cs : List Char) :
    readPart d (fuel + 1) .factor ('-' :: cs) = (do
      let (value, rest) ← readPart d fuel .factor cs
      pure (← checked (-value), rest)) := rfl

/-- A literal takes all the digits that there are. -/
theorem readFactor_literal {s : Char} (digit : s.isDigit = true) (cs : List Char) :
    readPart d (fuel + 1) .factor (s :: cs) =
      readLiteral ((s :: cs).takeWhile Char.isDigit) ((s :: cs).dropWhile Char.isDigit) := by
  have hparen : s ≠ '(' := by rintro rfl; exact absurd digit (by decide)
  have hminus : s ≠ '-' := by rintro rfl; exact absurd digit (by decide)
  rw [readPart, readFactor, if_neg hparen, if_neg hminus, if_pos digit,
    List.span_eq_takeWhile_dropWhile]

/-- What starts no other factor has to be a letter. -/
theorem readFactor_other {s : Char} (h : ¬ (s = '(' ∨ s = '-' ∨ s.isDigit = true))
    (cs : List Char) :
    readPart d (fuel + 1) .factor (s :: cs) = match Letter.ofChar? s with
      | some l => .ok (signedExtent d l, cs)
      | none => .error (.unknownSymbol s) := by
  obtain ⟨hparen, hminus, hdigit⟩ : s ≠ '(' ∧ s ≠ '-' ∧ ¬ s.isDigit = true := by
    simpa only [not_or] using h
  rw [readPart, readFactor, if_neg hparen, if_neg hminus, if_neg hdigit, extent?_eq]
  cases Letter.ofChar? s <;> rfl

variable {d fuel}

/-! ## Values of what is read -/

/-- The reader of a stage: the further operands of a chain are read behind the value so far. -/
def readStage (d : WorkExtents) (fuel : Nat) : Stage → List Char → Reading
  | .part p => readPart d fuel p
  | .tail c left => readTail d fuel c (left.value (signedExtent d))

/-- What is in front of a stage has a value. -/
def Stage.Fits (ρ : Letter → Int) : Stage → Prop
  | part _ => True
  | tail _ left => left.Fits ρ

/-- A stage of the text is read as an expression with this value, every value on the way being a
word. -/
def Stage.Evaluates (d : WorkExtents) (stage : Stage) (cs : List Char) (v : Int)
    (rest : List Char) : Prop :=
  ∃ e, Reads stage cs e rest ∧ e.Fits (signedExtent d) ∧ e.value (signedExtent d) = v

/-- What a reader with this much fuel returns is what the text evaluates to. -/
def Sound (d : WorkExtents) (fuel : Nat) : Prop :=
  ∀ (stage : Stage) {cs : List Char} {v : Int} {rest : List Char},
    stage.Fits (signedExtent d) → readStage d fuel stage cs = .ok (v, rest) →
      stage.Evaluates d cs v rest

/-! A reader with more fuel is sound when the readers that it calls are; there is one case for each
kind of stage. -/

theorem Sound.chain (h : Sound d fuel) {c : Chain} {cs : List Char} {v : Int} {rest : List Char}
    (hread : readPart d (fuel + 1) (.chain c) cs = .ok (v, rest)) :
    (Stage.part (.chain c)).Evaluates d cs v rest := by
  rw [readPart_chain] at hread
  obtain ⟨⟨_, mid⟩, hoperand, hfurther⟩ := Outcome.bind_eq_ok_iff.1 hread
  obtain ⟨a, ha, hfits, rfl⟩ := h (.part c.operand) trivial hoperand
  obtain ⟨e, he, hvalue⟩ := h (.tail c a) hfits hfurther
  exact ⟨e, .chain ha he, hvalue⟩

theorem Sound.tail (h : Sound d fuel) {c : Chain} {left : Expression} {cs : List Char} {v : Int}
    {rest : List Char} (hleft : left.Fits (signedExtent d))
    (hread : readTail d (fuel + 1) c (left.value (signedExtent d)) cs = .ok (v, rest)) :
    (Stage.tail c left).Evaluates d cs v rest := by
  cases cs with
  | nil =>
      rw [readTail_nil] at hread
      cases hread
      exact ⟨left, .stop (by simp), hleft, rfl⟩
  | cons s cs =>
      cases hop : c.operator? s with
      | none =>
          rw [readTail_cons_of_none d fuel hop] at hread
          cases hread
          exact ⟨left, .stop (by simp [hop]), hleft, rfl⟩
      | some op =>
          rw [readTail_cons_of_operator d fuel hop] at hread
          obtain ⟨⟨_, mid⟩, hoperand, hread⟩ := Outcome.bind_eq_ok_iff.1 hread
          obtain ⟨joined, hcheck, hfurther⟩ := Outcome.bind_eq_ok_iff.1 hread
          obtain ⟨b, hb, hright, rfl⟩ := h (.part c.operand) trivial hoperand
          obtain ⟨hallows, hfits, rfl⟩ :=
            (Operator.check_eq_ok_iff hleft.fits_value hright.fits_value).1 hcheck
          -- From here on the chain is read behind the joined expression.
          obtain ⟨e, he, hvalue⟩ :=
            h (.tail c (.binary op left b)) ⟨hleft, hright, hallows, hfits⟩ hfurther
          exact ⟨e, .join hop hb he, hvalue⟩

theorem Sound.factor (h : Sound d fuel) {cs : List Char} {v : Int} {rest : List Char}
    (hread : readPart d (fuel + 1) .factor cs = .ok (v, rest)) :
    (Stage.part .factor).Evaluates d cs v rest := by
  cases cs with
  | nil => cases hread
  | cons s cs =>
      by_cases hparen : s = '('
      · subst hparen
        rw [readFactor_parens] at hread
        obtain ⟨⟨_, mid⟩, hsum, hclose⟩ := Outcome.bind_eq_ok_iff.1 hread
        obtain ⟨e, he, hvalue⟩ := h (.part (.chain .sum)) trivial hsum
        split at hclose
        next value rest' hmid =>
          cases hmid
          cases hclose
          exact ⟨e, .parens rfl he, hvalue⟩
        next => cases hclose
      by_cases hminus : s = '-'
      · subst hminus
        rw [readFactor_negate] at hread
        obtain ⟨⟨_, mid⟩, hfactor, hread⟩ := Outcome.bind_eq_ok_iff.1 hread
        obtain ⟨negated, hchecked, hread⟩ := Outcome.bind_eq_ok_iff.1 hread
        obtain ⟨e, he, hfits, rfl⟩ := h (.part .factor) trivial hfactor
        obtain ⟨hword, rfl⟩ := checked_eq_ok_iff.1 hchecked
        cases hread
        exact ⟨.negate e, .negate rfl he, ⟨hfits, hword⟩, rfl⟩
      by_cases hdigit : s.isDigit = true
      · rw [readFactor_literal d fuel hdigit, readLiteral_eq_ok_iff] at hread
        obtain ⟨hword, rfl, rfl⟩ := hread
        exact ⟨_, .literal hdigit, hword, rfl⟩
      · rw [readFactor_other d fuel (by tauto)] at hread
        cases hletter : Letter.ofChar? s with
        | none => rw [hletter] at hread; cases hread
        | some l =>
            rw [hletter] at hread
            cases hread
            exact ⟨.letter l, .letter hletter, fits_signedExtent d l, rfl⟩

/-- What is read is what the text evaluates to. -/
theorem sound (d : WorkExtents) (fuel : Nat) : Sound d fuel := by
  induction fuel with
  | zero =>
      intro stage cs v rest hfits hread
      rcases stage with (⟨_ | _⟩ | _) | ⟨_ | _, left⟩ <;> cases hread
  | succ fuel ih =>
      intro stage cs v rest hfits hread
      match stage with
      | .part (.chain c) => exact ih.chain hread
      | .part .factor => exact ih.factor hread
      | .tail c left => exact ih.tail hfits hread

/-! ## Fuel -/

/-- The fuel that reading a stage takes at most. -/
def Stage.need : Stage → List Char → Nat
  | part (.chain .sum), cs => 3 * cs.length + 3
  | part (.chain .product), cs => 3 * cs.length + 2
  | part .factor, cs => 3 * cs.length + 1
  | tail _ _, cs => 3 * cs.length + 1

namespace Stage

variable {fuel : Nat} {cs mid : List Char}

/-- Every stage needs fuel. -/
theorem exists_succ_of_need_le {stage : Stage} (h : stage.need cs ≤ fuel) :
    ∃ fewer, fuel = fewer + 1 := by
  apply Nat.exists_eq_add_one_of_ne_zero
  rintro rfl
  rcases stage with (⟨_ | _⟩ | _) | _ <;> simp [need] at h

/-- A chain leaves enough for its first operand, and then for the others. -/
theorem need_operand_le {c : Chain} (h : (part (.chain c)).need cs ≤ fuel + 1) :
    (part c.operand).need cs ≤ fuel := by
  cases c <;> exact Nat.le_of_succ_le_succ h

theorem need_further_le {c : Chain} {left : Expression} (h : (part (.chain c)).need cs ≤ fuel + 1)
    (hmid : mid.length ≤ cs.length) : (tail c left).need mid ≤ fuel := by
  cases c <;> simp only [need] at h ⊢ <;> omega

/-- Every stage behind a character takes less fuel than any stage that starts with it. -/
theorem need_behind_le {stage next : Stage} {s : Char} (h : stage.need (s :: cs) ≤ fuel + 1)
    (hmid : mid.length ≤ cs.length) : next.need mid ≤ fuel := by
  have hupper : next.need mid ≤ 3 * mid.length + 3 := by
    rcases next with (⟨_ | _⟩ | _) | _ <;> simp only [need] <;> omega
  have hlower : 3 * (cs.length + 1) + 1 ≤ stage.need (s :: cs) := by
    rcases stage with (⟨_ | _⟩ | _) | _ <;> simp only [need, List.length_cons] <;> omega
  omega

end Stage

/-- What stands in front of the further operands of a chain fits when the whole chain does. -/
theorem Reads.fits_left {ρ : Letter → Int} {stage : Stage} {cs rest : List Char} {e : Expression}
    (h : Reads stage cs e rest) (hfits : e.Fits ρ) : stage.Fits ρ := by
  induction h with
  | join belongs operand further ihoperand ihfurther => exact (ihfurther hfits).1
  | stop ends => exact hfits
  | _ => trivial

/-- What a text evaluates to is read when there is fuel enough. -/
theorem Reads.readStage_eq {stage : Stage} {cs rest : List Char} {e : Expression}
    (h : Reads stage cs e rest) (hfits : e.Fits (signedExtent d)) {fuel : Nat}
    (hfuel : stage.need cs ≤ fuel) :
    readStage d fuel stage cs = .ok (e.value (signedExtent d), rest) := by
  induction h generalizing fuel with
  | @chain c cs mid rest a e first further ihfirst ihfurther =>
      obtain ⟨fuel, rfl⟩ := Stage.exists_succ_of_need_le hfuel
      have hoperand := ihfirst (further.fits_left hfits) (Stage.need_operand_le hfuel)
      have hfurther := ihfurther hfits (Stage.need_further_le hfuel first.length_le)
      rw [readStage, readPart_chain]
      exact Outcome.bind_eq_ok_iff.2 ⟨_, hoperand, hfurther⟩
  | @join c s op cs mid rest a b e belongs operand further ihoperand ihfurther =>
      obtain ⟨fuel, rfl⟩ := Stage.exists_succ_of_need_le hfuel
      -- The joined expression stands in front of the further operands, so it fits with the whole.
      obtain ⟨ha, hb, hallows, hjoined⟩ := further.fits_left hfits
      have hoperand := ihoperand hb (Stage.need_behind_le hfuel (Nat.le_refl _))
      have hcheck := (Operator.check_eq_ok_iff ha.fits_value hb.fits_value).2
        ⟨hallows, hjoined, rfl⟩
      have hfurther := ihfurther hfits (Stage.need_behind_le hfuel operand.length_le)
      rw [readStage, readTail_cons_of_operator d fuel belongs]
      refine Outcome.bind_eq_ok_iff.2 ⟨_, hoperand, ?_⟩
      exact Outcome.bind_eq_ok_iff.2 ⟨_, hcheck, hfurther⟩
  | @stop c a rest ends =>
      obtain ⟨fuel, rfl⟩ := Stage.exists_succ_of_need_le hfuel
      cases rest with
      | nil => exact readTail_nil d fuel c _
      | cons s cs => exact readTail_cons_of_none d fuel (ends s rfl) _ cs
  | @parens s cs rest e opens inner ih =>
      obtain ⟨fuel, rfl⟩ := Stage.exists_succ_of_need_le hfuel
      subst opens
      have hsum := ih hfits (Stage.need_behind_le hfuel (Nat.le_refl _))
      rw [readStage, readFactor_parens]
      exact Outcome.bind_eq_ok_iff.2 ⟨_, hsum, rfl⟩
  | @negate s cs rest e minus inner ih =>
      obtain ⟨fuel, rfl⟩ := Stage.exists_succ_of_need_le hfuel
      subst minus
      have hfactor := ih hfits.1 (Stage.need_behind_le hfuel (Nat.le_refl _))
      have hchecked := checked_eq_ok_iff.2 ⟨hfits.2, rfl⟩
      rw [readStage, readFactor_negate]
      refine Outcome.bind_eq_ok_iff.2 ⟨_, hfactor, ?_⟩
      exact Outcome.bind_eq_ok_iff.2 ⟨_, hchecked, rfl⟩
  | @literal s cs digit =>
      obtain ⟨fuel, rfl⟩ := Stage.exists_succ_of_need_le hfuel
      rw [readStage, readFactor_literal d fuel digit]
      exact readLiteral_eq_ok_iff.2 ⟨hfits, rfl, rfl⟩
  | @letter s l cs known =>
      obtain ⟨fuel, rfl⟩ := Stage.exists_succ_of_need_le hfuel
      have hstart : ¬ (s = '(' ∨ s = '-' ∨ s.isDigit = true) := by
        intro hstart
        rw [Letter.ofChar?_eq_none hstart] at known
        cases known
      rw [readStage, readFactor_other d fuel hstart, known]
      rfl

/-- What a text of one stage evaluates to is what a reader with fuel enough returns. -/
theorem readStage_eq_ok_iff (stage : Stage) {cs rest : List Char} {v : Int}
    (hfits : stage.Fits (signedExtent d)) (hfuel : stage.need cs ≤ fuel) :
    readStage d fuel stage cs = .ok (v, rest) ↔ stage.Evaluates d cs v rest := by
  constructor
  · exact sound d fuel stage hfits
  · rintro ⟨e, he, hvalues, rfl⟩
    exact he.readStage_eq hvalues hfuel

/-- Further fuel changes nothing that a reader with this much fuel returns. -/
def Stable (d : WorkExtents) (fuel : Nat) : Prop :=
  ∀ (stage : Stage) {cs : List Char}, stage.Fits (signedExtent d) → stage.need cs ≤ fuel →
    readStage d (fuel + 1) stage cs = readStage d fuel stage cs

theorem Stable.chain (h : Stable d fuel) {c : Chain} {cs : List Char}
    (hfuel : (Stage.part (.chain c)).need cs ≤ fuel + 1) :
    readPart d (fuel + 2) (.chain c) cs = readPart d (fuel + 1) (.chain c) cs := by
  have hoperand : readPart d (fuel + 1) c.operand cs = readPart d fuel c.operand cs :=
    h (.part c.operand) trivial (Stage.need_operand_le hfuel)
  rw [readPart_chain, readPart_chain, hoperand]
  apply Outcome.bind_congr_of_ok
  rintro ⟨_, mid⟩ hmid
  -- What the first operand leaves is no longer than the text, because it is read along the grammar.
  obtain ⟨a, ha, hvalues, rfl⟩ := sound d fuel (.part c.operand) trivial hmid
  exact h (.tail c a) hvalues (Stage.need_further_le hfuel ha.length_le)

theorem Stable.tail (h : Stable d fuel) {c : Chain} {left : Expression} {cs : List Char}
    (hleft : left.Fits (signedExtent d)) (hfuel : (Stage.tail c left).need cs ≤ fuel + 1) :
    readTail d (fuel + 2) c (left.value (signedExtent d)) cs =
      readTail d (fuel + 1) c (left.value (signedExtent d)) cs := by
  cases cs with
  | nil => rw [readTail_nil, readTail_nil]
  | cons s cs =>
      cases hop : c.operator? s with
      | none => rw [readTail_cons_of_none d _ hop, readTail_cons_of_none d _ hop]
      | some op =>
          have hoperand : readPart d (fuel + 1) c.operand cs = readPart d fuel c.operand cs :=
            h (.part c.operand) trivial
              (Stage.need_behind_le hfuel (Nat.le_refl _))
          rw [readTail_cons_of_operator d _ hop, readTail_cons_of_operator d _ hop, hoperand]
          apply Outcome.bind_congr_of_ok
          rintro ⟨_, mid⟩ hmid
          apply Outcome.bind_congr_of_ok
          intro joined hjoined
          obtain ⟨b, hb, hright, rfl⟩ := sound d fuel (.part c.operand) trivial hmid
          obtain ⟨hallows, hfits, rfl⟩ :=
            (Operator.check_eq_ok_iff hleft.fits_value hright.fits_value).1 hjoined
          exact h (.tail c (.binary op left b)) ⟨hleft, hright, hallows, hfits⟩
            (Stage.need_behind_le hfuel hb.length_le)

theorem Stable.factor (h : Stable d fuel) {cs : List Char}
    (hfuel : (Stage.part .factor).need cs ≤ fuel + 1) :
    readPart d (fuel + 2) .factor cs = readPart d (fuel + 1) .factor cs := by
  cases cs with
  | nil => rfl
  | cons s cs =>
      have hbehind (p : Part) : readPart d (fuel + 1) p cs = readPart d fuel p cs :=
        h (.part p) trivial (Stage.need_behind_le hfuel (Nat.le_refl _))
      by_cases hparen : s = '('
      · subst hparen
        rw [readFactor_parens, readFactor_parens, hbehind]
      by_cases hminus : s = '-'
      · subst hminus
        rw [readFactor_negate, readFactor_negate, hbehind]
      by_cases hdigit : s.isDigit = true
      · rw [readFactor_literal d _ hdigit, readFactor_literal d _ hdigit]
      · rw [readFactor_other d _ (by tauto), readFactor_other d _ (by tauto)]

/-- With fuel enough for a stage, more fuel changes nothing. -/
theorem stable (d : WorkExtents) (fuel : Nat) : Stable d fuel := by
  induction fuel with
  | zero =>
      intro stage cs _ hfuel
      obtain ⟨_, hzero⟩ := Stage.exists_succ_of_need_le hfuel
      cases hzero
  | succ fuel ih =>
      intro stage cs hfits hfuel
      match stage with
      | .part (.chain c) => exact ih.chain hfuel
      | .part .factor => exact ih.factor hfuel
      | .tail c left => exact ih.tail hfits hfuel

/-- A sum is read in the same way whatever more fuel there is. -/
theorem readSum_eq_of_le {cs : List Char} (hfuel : 3 * cs.length + 3 ≤ fuel) :
    readSum d fuel cs = readSum d (3 * cs.length + 3) cs := by
  induction hfuel with
  | refl => rfl
  | step hle ih => exact (stable d _ (.part (.chain .sum)) trivial hle).trans ih

/-! ## Work sizes -/

/-- A work size is the value of the expression that the text stands for, with every value on the way
a word and the last one not negative. -/
theorem evaluateChars_eq_ok_iff {cs : List Char} {v : Nat} :
    evaluateChars d cs = .ok v ↔
      ∃ e, Derives (.chain .sum) cs e ∧ e.Fits (signedExtent d) ∧ e.value (signedExtent d) = v := by
  have hread {w : Int} {rest : List Char} : readSum d (3 * cs.length + 3) cs = .ok (w, rest) ↔
      (Stage.part (.chain .sum)).Evaluates d cs w rest :=
    readStage_eq_ok_iff (.part (.chain .sum)) trivial (Nat.le_refl _)
  rw [evaluateChars, Outcome.bind_eq_ok_iff]
  constructor
  · rintro ⟨⟨w, rest⟩, hsum, hvalue⟩
    obtain ⟨e, he, hfits, rfl⟩ := hread.1 hsum
    cases rest with
    | cons c cs => cases hvalue
    | nil =>
        refine ⟨e, reads_iff_derives.1 he, hfits, ?_⟩
        dsimp only at hvalue
        split at hvalue
        next => cases hvalue
        next hnonneg =>
          cases hvalue
          omega
  · rintro ⟨e, he, hfits, hvalue⟩
    refine ⟨(v, []), hread.2 ⟨e, reads_iff_derives.2 he, hfits, hvalue⟩, ?_⟩
    have hnonneg : ¬ (v : Int) < 0 := by omega
    simp [hnonneg]

/-- A letter as it is written in upper case. -/
def Letter.symbol : Letter → Char
  | b => 'B'
  | f => 'F'
  | y => 'Y'
  | x => 'X'

/-- An extent rounded up to a multiple of sixteen. -/
def roundedUp (l : Letter) : Expression :=
  .binary .multiply (.binary .divide (.binary .add (.letter l) (.literal 15)) (.literal 16))
    (.literal 16)

/-- A letter and a literal with a plus between them. -/
theorem derives_letter_add (l : Letter) {digits : List Char} (nonempty : digits ≠ [])
    (hdigits : digits.all Char.isDigit = true) :
    Derives (.chain .sum) ([l.symbol] ++ Operator.add.symbol :: digits)
      (.binary .add (.letter l) (.literal (digitsValue digits))) := by
  have hletter : Derives .factor [l.symbol] (.letter l) := .letter (by cases l <;> rfl)
  have hliteral : Derives .factor digits (.literal (digitsValue digits)) :=
    .literal nonempty (List.all_eq_true.1 hdigits)
  exact .join rfl (.operand (.operand hletter)) (.operand hliteral)

/-- The text of a rounded extent: the operators of its product are joined from the left. -/
theorem derives_roundedUp (l : Letter) :
    Derives (.chain .sum) ('(' :: l.symbol :: "+15)/16*16".toList) (roundedUp l) := by
  have hsum : Derives (.chain .sum) [l.symbol, '+', '1', '5']
      (.binary .add (.letter l) (.literal 15)) :=
    derives_letter_add l (by decide) (by decide)
  have hsixteen : Derives .factor ['1', '6'] (.literal 16) :=
    .literal (by decide) (List.all_eq_true.1 (by decide))
  have hquotient : Derives (.chain .product)
      ('(' :: ([l.symbol, '+', '1', '5'] ++ [')']) ++ Operator.divide.symbol :: ['1', '6'])
      (.binary .divide (.binary .add (.letter l) (.literal 15)) (.literal 16)) :=
    .join rfl (.operand (.parens hsum)) hsixteen
  have hwhole : Derives (.chain .product)
      ('(' :: ([l.symbol, '+', '1', '5'] ++ [')']) ++ '/' :: ['1', '6'] ++
        Operator.multiply.symbol :: ['1', '6'])
      (roundedUp l) :=
    .join rfl hquotient hsixteen
  exact .operand hwhole

/-- A text has a work size exactly when it stands for an expression over the extents of which every
value is a word and the last is not negative; that value is the work size. A text stands for one
expression at most, and further fuel does not change what is read. -/
theorem evaluateWorkSize_iff {d : WorkExtents} (hd : ∀ l : Letter, l.extent d < 2 ^ 63)
    (expression : String) :
    (∀ v : Nat, evaluateWorkSize d expression = .ok v ↔
        ∃ e, Derives (.chain .sum) (withoutBlanks expression) e ∧ e.Fits (exactExtent d) ∧
          e.value (exactExtent d) = v) ∧
      (∀ e e', Derives (.chain .sum) (withoutBlanks expression) e →
        Derives (.chain .sum) (withoutBlanks expression) e' → e = e') ∧
      ∀ fuel, 3 * (withoutBlanks expression).length + 3 ≤ fuel →
        readSum d fuel (withoutBlanks expression) =
          readSum d (3 * (withoutBlanks expression).length + 3) (withoutBlanks expression) := by
  have hextents : exactExtent d = signedExtent d := funext fun l => (signedExtent_eq (hd l)).symm
  refine ⟨?_, ?_, ?_⟩
  · intro v
    rw [hextents]
    exact evaluateChars_eq_ok_iff
  · intro e e' he he'
    exact he.unique he'
  · intro fuel hfuel
    exact readSum_eq_of_le hfuel

/-- A work size that is a rounded extent. -/
theorem evaluateWorkSize_roundedUp :
    (∀ l : Letter, l.extent (.ofSizes [2, 3, 4, 5]) < 2 ^ 63) ∧
      evaluateWorkSize (.ofSizes [2, 3, 4, 5]) "(X + 15) / 16 * 16" = .ok 16 := by
  have hextents : ∀ l : Letter, l.extent (.ofSizes [2, 3, 4, 5]) < 2 ^ 63 := by
    intro l
    cases l <;> decide
  have htext : withoutBlanks "(X + 15) / 16 * 16" =
      '(' :: Letter.x.symbol :: "+15)/16*16".toList := by decide
  refine ⟨hextents, ((evaluateWorkSize_iff hextents _).1 16).2 ⟨roundedUp .x, ?_, ?_, ?_⟩⟩
  · rw [htext]
    exact derives_roundedUp .x
  · decide
  · decide

end TensorLowering.Overlay.WorkSize
