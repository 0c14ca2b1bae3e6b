import TensorLowering.Proofs.Overlay.WorkSize
import TensorLowering.Proofs.Tensor.Bounds

/-!
# Work sizes of large outputs

While a text is read, an extent is taken as a signed word, whatever it is. An extent from `2 ^ 63`
on is read as a negative number: so work sizes are exact where the extents that they mention are
below that limit, and an output with a single extent beyond it has work sizes that are wrong.

## Main statements

* `signedExtent_of_le`: what an extent beyond the limit is read as.
* `Exact.letterSize_lt`: one extent beyond the limit spoils work sizes.
* `evaluateWorkSize_exact_iff`: when work sizes are exact.
-/

namespace TensorLowering.Overlay.WorkSize

open Json Text

/-- What the letters stand for in an output with the given sizes: the first three sizes, and the
product of the others; a size that is missing is 1. -/
def letterSize (sizes : List Nat) : Letter → Nat
  | .b => sizes.getD 0 1
  | .f => sizes.getD 1 1
  | .y => sizes.getD 2 1
  | .x => (sizes.drop 3).prod

/-- The extents are the sizes when the product of the last ones does not wrap around. -/
theorem extent_ofSizes {sizes : List Nat} (hproduct : (sizes.drop 3).prod < 2 ^ 64) (l : Letter) :
    l.extent (.ofSizes sizes) = letterSize sizes l := by
  cases l with
  | x =>
      rw [← volume_eq_prod] at hproduct
      exact (wordVolume_eq_volume_iff.2 hproduct).trans (volume_eq_prod _)
  | _ => rfl

/-- No letter stands for more than a word when no size does, and neither does the product. -/
theorem letterSize_lt_word {sizes : List Nat} (hsizes : ∀ n ∈ sizes, n < 2 ^ 64)
    (hproduct : (sizes.drop 3).prod < 2 ^ 64) (l : Letter) : letterSize sizes l < 2 ^ 64 := by
  have hsize (i : Nat) : sizes.getD i 1 < 2 ^ 64 := by
    rw [List.getD_eq_getElem?_getD]
    cases hi : sizes[i]? with
    | none => decide
    | some n => exact hsizes n (List.mem_of_getElem? hi)
  cases l with
  | x => exact hproduct
  | _ => exact hsize _

/-- An extent beyond the limit of signed words is read as a negative number: what it lacks to the
limit of words. -/
theorem signedExtent_of_le {d : WorkExtents} {l : Letter} (h : 2 ^ 63 ≤ l.extent d)
    (hlt : l.extent d < 2 ^ 64) : signedExtent d l = l.extent d - 2 ^ 64 := by
  rw [signedExtent, signedWord, Int64.toInt_ofNat', Int.bmod_def]
  simp only [Int64.size]
  omega

namespace Expression

/-- The letters that an expression mentions. -/
def letters : Expression → List Letter
  | literal _ => []
  | letter l => [l]
  | negate e => e.letters
  | binary _ a b => a.letters ++ b.letters

/-- The value of an expression depends on the letters that it mentions. -/
theorem value_congr {ρ ρ' : Letter → Int} {e : Expression} (h : ∀ l ∈ e.letters, ρ l = ρ' l) :
    e.value ρ = e.value ρ' := by
  induction e with
  | literal n => rfl
  | letter l => exact h l List.mem_cons_self
  | negate e ih => rw [value, value, ih h]
  | binary op a b iha ihb =>
      obtain ⟨ha, hb⟩ := List.forall_mem_append.1 h
      rw [value, value, iha ha, ihb hb]

end Expression

/-- What follows an extent, with the other sign. -/
def negatedNext (l : Letter) : Expression := .negate (.binary .add (.letter l) (.literal 1))

/-- The text of that value. -/
def negatedNextText (l : Letter) : String := String.ofList ('-' :: '(' :: l.symbol :: "+1)".toList)

theorem derives_negatedNext (l : Letter) :
    Derives (.chain .sum) (withoutBlanks (negatedNextText l)) (negatedNext l) := by
  have htext : withoutBlanks (negatedNextText l) =
      '-' :: '(' :: ([l.symbol, '+', '1'] ++ [')']) := by
    cases l <;> decide
  have hsum : Derives (.chain .sum) [l.symbol, '+', '1']
      (.binary .add (.letter l) (.literal 1)) :=
    derives_letter_add l (by decide) (by decide)
  rw [htext]
  exact .operand (.operand (.negate (.parens hsum)))

/-- Its work size is no error where the extent is beyond the limit of signed words. -/
theorem evaluateWorkSize_negatedNext {d : WorkExtents} {l : Letter} (h : 2 ^ 63 ≤ l.extent d)
    (hlt : l.extent d < 2 ^ 64) :
    evaluateWorkSize d (negatedNextText l) = .ok (2 ^ 64 - 1 - l.extent d) := by
  have hsigned := signedExtent_of_le h hlt
  refine evaluateChars_eq_ok_iff.2 ⟨negatedNext l, derives_negatedNext l, ?_, ?_⟩
  · have hletter := fits_signedExtent d l
    have hone : fits (1 : Nat) = true := by decide
    have hsum : fits (signedExtent d l + (1 : Nat)) = true := by rw [fits_iff]; omega
    have hnegated : fits (-(signedExtent d l + (1 : Nat))) = true := by rw [fits_iff]; omega
    exact ⟨⟨hletter, hone, trivial, hsum⟩, hnegated⟩
  · calc
      (negatedNext l).value (signedExtent d) = -(signedExtent d l + (1 : Nat)) := rfl
      _ = ((2 ^ 64 - 1 - l.extent d : Nat) : Int) := by omega

/-- Work sizes are exact: one that is returned is the value of its text over the sizes. -/
def Exact (sizes : List Nat) : Prop :=
  ∀ (expression : String) (v : Nat), evaluateWorkSize (.ofSizes sizes) expression = .ok v →
    ∃ e, Derives (.chain .sum) (withoutBlanks expression) e ∧
      e.value (fun l => letterSize sizes l) = v

/-- A work size is the value of its text over the extents as they are read, and over the sizes
themselves where those that the text mentions are read as they are. -/
theorem value_of_evaluateWorkSize {sizes : List Nat} (hproduct : (sizes.drop 3).prod < 2 ^ 64)
    {expression : String} {v : Nat} (h : evaluateWorkSize (.ofSizes sizes) expression = .ok v) :
    ∃ e, Derives (.chain .sum) (withoutBlanks expression) e ∧
      e.value (signedExtent (.ofSizes sizes)) = v ∧
      ((∀ l ∈ e.letters, letterSize sizes l < 2 ^ 63) →
        e.value (fun l => letterSize sizes l) = v) := by
  obtain ⟨e, he, -, hvalue⟩ := evaluateChars_eq_ok_iff.1 h
  refine ⟨e, he, hvalue, fun hletters => ?_⟩
  calc
    e.value (fun l => letterSize sizes l) = e.value (signedExtent (.ofSizes sizes)) := by
      apply Expression.value_congr
      intro l hl
      rw [← extent_ofSizes hproduct]
      exact (signedExtent_eq ((extent_ofSizes hproduct l).symm ▸ hletters l hl)).symm
    _ = v := hvalue

/-- A single size beyond the limit of signed words spoils work sizes. -/
theorem Exact.letterSize_lt {sizes : List Nat} (hexact : Exact sizes)
    (hsizes : ∀ n ∈ sizes, n < 2 ^ 64) (hproduct : (sizes.drop 3).prod < 2 ^ 64) (l : Letter) :
    letterSize sizes l < 2 ^ 63 := by
  by_contra hlarge
  have hle : 2 ^ 63 ≤ l.extent (.ofSizes sizes) := by
    rw [extent_ofSizes hproduct]
    exact Nat.le_of_not_lt hlarge
  have hlt : l.extent (.ofSizes sizes) < 2 ^ 64 := by
    rw [extent_ofSizes hproduct]
    exact letterSize_lt_word hsizes hproduct l
  obtain ⟨e, he, hvalue⟩ := hexact _ _ (evaluateWorkSize_negatedNext hle hlt)
  obtain rfl := he.unique (derives_negatedNext l)
  -- The value over the sizes themselves is negative, and no work size is.
  have hnegative : (negatedNext l).value (fun l => letterSize sizes l) =
      -((letterSize sizes l : Int) + (1 : Nat)) := rfl
  omega

/-- A work size is the value of its text over the sizes read as signed words. That is the value over
the sizes themselves where the text mentions none from `2 ^ 63` on; and it is for every text exactly
when no letter stands for such a size. -/
theorem evaluateWorkSize_exact_iff {sizes : List Nat} (hsizes : ∀ n ∈ sizes, n < 2 ^ 64)
    (hproduct : (sizes.drop 3).prod < 2 ^ 64) :
    (∀ (expression : String) (v : Nat), evaluateWorkSize (.ofSizes sizes) expression = .ok v →
        ∃ e, Derives (.chain .sum) (withoutBlanks expression) e ∧
          e.value (signedExtent (.ofSizes sizes)) = v ∧
          ((∀ l ∈ e.letters, letterSize sizes l < 2 ^ 63) →
            e.value (fun l => letterSize sizes l) = v)) ∧
      (Exact sizes ↔ ∀ l, letterSize sizes l < 2 ^ 63) := by
  refine ⟨fun _ _ => value_of_evaluateWorkSize hproduct, ?_, ?_⟩
  · intro hexact l
    exact hexact.letterSize_lt hsizes hproduct l
  · intro hsmall expression v hv
    obtain ⟨e, he, -, hvalue⟩ := value_of_evaluateWorkSize hproduct hv
    exact ⟨e, he, hvalue fun l _ => hsmall l⟩

/-- Work sizes are exact for a small output, and not for one with a batch beyond the limit. -/
theorem exact_small_not_large : Exact [2, 3, 4, 5, 6] ∧ ¬ Exact [18446744073709551600] := by
  constructor
  · have hsmall : ∀ l, letterSize [2, 3, 4, 5, 6] l < 2 ^ 63 := by
      intro l
      cases l <;> decide
    exact (evaluateWorkSize_exact_iff (by decide) (by decide)).2.2 hsmall
  · intro hexact
    have hbatch := (evaluateWorkSize_exact_iff (by decide) (by decide)).2.1 hexact .b
    exact absurd hbatch (by decide)

/-- A batch that is a multiple of sixteen, rounded up to one: its work size is zero. -/
theorem not_exact_roundedUp :
    evaluateWorkSize (.ofSizes [18446744073709551600]) "(B + 15) / 16 * 16" = .ok 0 ∧
      (∃ e, Derives (.chain .sum) (withoutBlanks "(B + 15) / 16 * 16") e ∧
        e.value (fun l => letterSize [18446744073709551600] l) = 18446744073709551600) ∧
      ¬ ∃ e, Derives (.chain .sum) (withoutBlanks "(B + 15) / 16 * 16") e ∧
        e.value (fun l => letterSize [18446744073709551600] l) = 0 := by
  have htext : withoutBlanks "(B + 15) / 16 * 16" =
      '(' :: Letter.b.symbol :: "+15)/16*16".toList := by decide
  have hderives : Derives (.chain .sum) (withoutBlanks "(B + 15) / 16 * 16") (roundedUp .b) :=
    htext ▸ derives_roundedUp .b
  have hvalue : (roundedUp .b).value (fun l => letterSize [18446744073709551600] l) =
      18446744073709551600 := by decide
  refine ⟨?_, ⟨roundedUp .b, hderives, hvalue⟩, ?_⟩
  · exact evaluateChars_eq_ok_iff.2 ⟨roundedUp .b, hderives, by decide, by decide⟩
  · rintro ⟨e, he, hzero⟩
    obtain rfl := he.unique hderives
    exact absurd (hvalue.symm.trans hzero) (by decide)

end TensorLowering.Overlay.WorkSize
