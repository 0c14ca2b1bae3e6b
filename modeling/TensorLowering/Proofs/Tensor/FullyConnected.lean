import TensorLowering.Proofs.Tensor.Elementwise

/-!
# Products with weights

The weights of a fully connected product have any element type, and a zero point and a scale, of any
element types too, may be spread over them. The number of rows is recovered from the elements of the
input, by their number for each row. When a row has no elements, no rows are found, so that the
product is refused although the matrix product of the same operands has a zero for each row; it is not
refused where the number of elements that are missing wraps around to zero.

## Main statements

* `Tensor.exists_spread`: the entries of a correction that is spread over the weights.
* `Tensor.exists_decompress`: the entries of the weights after both corrections.
* `Tensor.fullyConnected_entries`: when a product succeeds, and its result.
* `Tensor.not_fullyConnected_hollow`: a row without elements.
-/

namespace TensorLowering

open Numeric Indexing

/-- The 32-bit number that an element is converted to. -/
def Scalar.toFloat : Scalar → Binary32
  | f32 value => value
  | i32 value => .ofInt value.toInt
  | i64 value => .ofInt value.toInt

theorem Elements.toList_toFloats (elements : Elements) :
    elements.toFloats.toList = elements.toList.map Scalar.toFloat := by
  cases elements <;> simp [toFloats, toList, Scalar.toFloat, Function.comp_def]

namespace Tensor

section Corrections

variable {t weights : Tensor} {scale zeroPoint correction : Option Tensor}
  {sizes target coords : List Nat} {f : Binary32 → Binary32 → Binary32}

/-- The entry at given coordinates as a 32-bit number. -/
def float? (t : Tensor) (coords : List Nat) : Option Binary32 :=
  (t.scalar? coords).map Scalar.toFloat

theorem float?_eq_entryOf (t : Tensor) (coords : List Nat) :
    t.float? coords = entryOf t.sizes coords t.elements.toFloats.toList := by
  rw [float?, scalar?, Elements.toList_toFloats, entryOf_map]

theorem exists_float? (ht : t.WellFormed) (h : InRange coords t.sizes) :
    ∃ x, t.float? coords = some x := by
  obtain ⟨x, hx⟩ := ht.exists_scalar? h
  exact ⟨x.toFloat, by rw [float?, hx, Option.map_some]⟩

/-- What is spread over larger sizes has at all coordinates the entry at its own coordinates. -/
theorem exists_spread (ht : t.WellFormed) (hword : volume target < UInt64.size)
    (h : SpreadsTo t.sizes target) :
    ∃ values, t.spread target = .ok values ∧ ∀ coords, InRange coords target →
      entryOf target coords values = t.float? (sourceCoordinates t.sizes coords) := by
  have hsizes := h.broadcastSizes_eq
  have hread : ∀ coords, InRange coords target → ∀ x,
      elementAt t.elements.toFloats t.sizes coords = .ok x ↔
        t.float? (sourceCoordinates t.sizes coords) = some x := by
    intro coords hcoords x
    rw [float?_eq_entryOf]
    exact elementAt_eq_ok_iff ht.volume_lt hsizes hcoords
  obtain ⟨values, hvalues, -⟩ := exists_mapM_coordinates
    (f := elementAt t.elements.toFloats t.sizes) (wordVolume_le target) fun coords hcoords => by
      obtain ⟨x, hx⟩ := exists_float? ht (sourceOffset_eq_ok hsizes hcoords).1
      exact ⟨x, (hread coords hcoords x).2 hx⟩
  refine ⟨values, ?_, fun coords hcoords => ?_⟩
  · rw [spread, broadcast_eq_ok_iff.2 hsizes]
    exact (if_neg (not_not_intro rfl)).trans hvalues
  · have hcount : number coords (places target) < wordVolume target := by
      rw [wordVolume_eq_volume_iff.2 hword]
      exact number_lt hcoords
    obtain ⟨x, hx, hentry⟩ := entryOf_of_mapM_coordinates hvalues hcoords hcount
    rw [hentry, (hread coords hcoords x).1 hx]

/-- A number at given coordinates after a correction that may be missing. -/
def correctedEntry (f : Binary32 → Binary32 → Binary32) (coords : List Nat) (x : Binary32) :
    Option Tensor → Option Binary32
  | some t => (t.float? (sourceCoordinates t.sizes coords)).map (f x)
  | none => some x

/-- An entry of the weights as a 32-bit number: less the zero point, times the scale, where these are
given. -/
def weight? (weights : Tensor) (scale zeroPoint : Option Tensor) (coords : List Nat) :
    Option Binary32 := do
  let plain ← weights.float? coords
  let centred ← correctedEntry (· - ·) coords plain zeroPoint
  correctedEntry (· * ·) coords centred scale

/-- Numbers are corrected entry by entry. -/
theorem exists_corrected (f : Binary32 → Binary32 → Binary32) (values : List Binary32)
    (hword : volume sizes < UInt64.size)
    (h : ∀ t ∈ correction, t.WellFormed ∧ SpreadsTo t.sizes sizes) :
    ∃ values', corrected f values sizes correction = .ok values' ∧
      ∀ coords, InRange coords sizes → entryOf sizes coords values' =
        (entryOf sizes coords values).bind fun x => correctedEntry f coords x correction := by
  cases correction with
  | none => exact ⟨values, rfl, fun _ _ => (Option.bind_fun_some _).symm⟩
  | some t =>
      obtain ⟨ht, hspreads⟩ := h t rfl
      obtain ⟨spreaded, hspreaded, hentries⟩ := exists_spread ht hword hspreads
      refine ⟨List.zipWith f values spreaded, by rw [corrected, hspreaded]; rfl, ?_⟩
      intro coords hcoords
      simp only [correctedEntry, ← hentries coords hcoords, entryOf_eq_getElem? hcoords,
        List.getElem?_zipWith]
      cases values[number coords (places sizes)]? <;>
        cases spreaded[number coords (places sizes)]? <;> rfl

/-- Weights are decompressed entry by entry. -/
theorem exists_decompress (hweights : weights.WellFormed)
    (hscale : ∀ t ∈ scale, t.WellFormed ∧ SpreadsTo t.sizes weights.sizes)
    (hzeroPoint : ∀ t ∈ zeroPoint, t.WellFormed ∧ SpreadsTo t.sizes weights.sizes) :
    ∃ values, decompress weights scale zeroPoint = .ok values ∧
      ∀ coords, InRange coords weights.sizes →
        values[number coords (places weights.sizes)]? = weights.weight? scale zeroPoint coords := by
  obtain ⟨centred, hcentred, hentries⟩ :=
    exists_corrected (· - ·) weights.elements.toFloats.toList hweights.volume_lt hzeroPoint
  obtain ⟨scaled, hscaled, hentries'⟩ := exists_corrected (· * ·) centred hweights.volume_lt hscale
  refine ⟨scaled.toArray, ?_, fun coords hcoords => ?_⟩
  · rw [decompress_eq, hcentred]
    exact congrArg (· >>= fun scaled => pure scaled.toArray) hscaled
  · rw [List.getElem?_toArray, ← entryOf_eq_getElem? hcoords, hentries' coords hcoords,
      hentries coords hcoords, Option.bind_assoc, ← float?_eq_entryOf]
    rfl

end Corrections

section Rows

variable {input weights : Tensor} {scale zeroPoint : Option Tensor} {x w : Array Binary32}
  {batch : List Nat} {rows n k : Nat}

/-- Each row of the input times each row of the weights. -/
def rowProducts (x w : Array Binary32) (rows n k : Nat) : List (List Binary32) :=
  (List.range rows).map fun r => (List.range n).map fun j =>
    sumOfProducts .negZero k (fun p => x[r * k + p]?.getD .zero) (fun p => w[j * k + p]?.getD .zero)

/-- The rows that are found from the elements of the input: all of them, or none when a row has no
elements. -/
def foundRows (batch : List Nat) (k : Nat) : Nat := if k = 0 then 0 else volume batch

theorem length_of_mem_rowProducts {row : List Binary32} (h : row ∈ rowProducts x w rows n k) :
    row.length = n := by
  obtain ⟨r, -, rfl⟩ := List.mem_map.1 h
  rw [List.length_map, List.length_range]

theorem length_rowProducts (x w : Array Binary32) (rows n k : Nat) :
    (rowProducts x w rows n k).flatten.length = rows * n := by
  rw [length_flatten_uniform fun _ => length_of_mem_rowProducts, rowProducts, List.length_map,
    List.length_range]

theorem getElem?_rowProducts {r j : Nat} (hr : r < rows) (hj : j < n) :
    (rowProducts x w rows n k).flatten[r * n + j]? =
      some (sumOfProducts .negZero k (fun p => x[r * k + p]?.getD .zero)
        (fun p => w[j * k + p]?.getD .zero)) := by
  have hrow : (rowProducts x w rows n k)[r]? = some _ :=
    (List.getElem?_map ..).trans (congrArg _ (List.getElem?_range hr))
  rw [getElem?_flatten_uniform (fun _ => length_of_mem_rowProducts) hrow hj, List.getElem?_map,
    List.getElem?_range hj, Option.map_some]

theorem size_of_input (hinput : input.WellFormed) (hx : input.elements = .f32 x)
    (hsizes : input.sizes = batch ++ [k]) : x.size = volume batch * k := by
  rw [hinput.size_eq hx, hsizes, volume_append_singleton]

theorem size_of_weights (hweights : weights.WellFormed) (hsizes : weights.sizes = [n, k])
    (hw : decompress weights scale zeroPoint = .ok w) : w.size = n * k := by
  rw [size_of_decompress hw, hweights.wordVolume_eq, hsizes, volume_pair]

/-- A product has the rows that are found. -/
theorem fullyConnected_eq_ofFloats (hinput : input.WellFormed) (hweights : weights.WellFormed)
    (hx : input.elements = .f32 x) (hsizes : input.sizes = batch ++ [k])
    (hsizes' : weights.sizes = [n, k]) (hw : decompress weights scale zeroPoint = .ok w) :
    fullyConnected input weights scale zeroPoint =
      ofFloats (batch ++ [n]) (rowProducts x w (foundRows batch k) n k).flatten := by
  have hinputSize := size_of_input hinput hx hsizes
  have hweightsSize := size_of_weights hweights hsizes' hw
  have hword : w.size < UInt64.size := by
    rw [size_of_decompress hw]
    exact wordVolume_lt _
  have hrows : (if k = 0 then 0 else x.size / k) = foundRows batch k := by
    rw [foundRows]
    split
    · rfl
    · next hk => rw [hinputSize, Nat.mul_div_cancel _ (Nat.pos_of_ne_zero hk)]
  have hbound : foundRows batch k * k ≤ x.size := by
    rw [foundRows]
    split <;> omega
  have hproducts : ((List.range (if k = 0 then 0 else x.size / k)).mapM fun r =>
      (List.range n).mapM fun j =>
        dot .negZero k (fun p => .ofOption x[r * k + p]?)
          (fun p => .ofOption w[wrap (j * k + p)]?)) =
      (.ok (rowProducts x w (foundRows batch k) n k) :
        Outcome EngineError (List (List Binary32))) := by
    rw [hrows]
    refine Outcome.mapM_eq_ok_map fun r hr => Outcome.mapM_eq_ok_map fun j hj => ?_
    rw [List.mem_range] at hr hj
    exact dot_eq_ok .negZero
      (fun p hp => Outcome.ofOption_eq_ok_iff.2 (getElem?_row hbound hr hp))
      fun p hp => Outcome.ofOption_eq_ok_iff.2 (getElem?_wrap_row hweightsSize.ge hword hj hp)
  rw [fullyConnected, floats_eq_ok_iff.2 hx]
  simp only [hsizes, hsizes', List.getLast?_concat, List.dropLast_concat, hw, ne_eq,
    not_true_eq_false, if_false]
  exact congrArg (· >>= fun products => ofFloats (batch ++ [n]) products.flatten) hproducts

/-- The entries in a row of the input. -/
theorem scalar?_row (hinput : input.WellFormed) (hx : input.elements = .f32 x)
    (hsizes : input.sizes = batch ++ [k]) {r : List Nat} {p : Nat} (hr : InRange r batch)
    (hp : p < k) :
    input.scalar? (r ++ [p]) =
      some (.f32 (x[number r (places batch) * k + p]?.getD .zero)) := by
  have hrange : InRange (r ++ [p]) input.sizes := by
    rw [hsizes]
    exact List.rel_append hr (.cons hp .nil)
  rw [scalar?_eq_map hx hrange, hsizes, number_append_singleton hr.length_eq,
    getElem?_row (size_of_input hinput hx hsizes).ge (number_lt hr) hp, Option.map_some,
    Option.getD_some]

/-- The entries in a row of the corrected weights. -/
theorem weight?_row (hweights : weights.WellFormed) (hsizes : weights.sizes = [n, k])
    (hw : decompress weights scale zeroPoint = .ok w)
    (hentries : ∀ coords, InRange coords weights.sizes →
      w[number coords (places weights.sizes)]? = weights.weight? scale zeroPoint coords)
    {j p : Nat} (hj : j < n) (hp : p < k) :
    weights.weight? scale zeroPoint [j, p] = some (w[j * k + p]?.getD .zero) := by
  have hrange : InRange [j, p] weights.sizes := by
    rw [hsizes]
    exact .cons hj (.cons hp .nil)
  have hplace : number [j, p] (places weights.sizes) = j * k + p := by
    rw [hsizes]
    simp [places, number, volume]
  rw [← hentries _ hrange, hplace, ← getElem?_row (size_of_weights hweights hsizes hw).ge hj hp]

end Rows

/-- The rows that are found have as many elements as the sizes ask for where the rows of the input have
elements and a word can count the result, and where both have none. -/
theorem wordVolume_eq_foundRows_iff {batch : List Nat} {n k : Nat} :
    wordVolume (batch ++ [n]) = foundRows batch k * n ↔
      if k = 0 then wrap (volume batch * n) = 0 else volume batch * n < UInt64.size := by
  rw [foundRows, wordVolume_eq, volume_append_singleton]
  split
  · rw [Nat.zero_mul]
  · rw [wrap_eq_self_iff]

/-- A product of well-shaped operands succeeds exactly when the rows have elements and a word can count
the result, or the rows have none and the number of elements of the result wraps around to zero. If the
rows have no elements, it fails otherwise for want of elements. The last axis of the input is replaced
by the rows of the weights. Each entry is the sum in order of a row of the input times a row of the
corrected weights; if the rows have no elements, there is no entry. -/
theorem fullyConnected_entries (input weights : Tensor) (scale zeroPoint : Option Tensor)
    {batch : List Nat} {n k : Nat} (hinput : input.WellFormed) (hweights : weights.WellFormed)
    (helement : input.element = .f32) (hsizes : input.sizes = batch ++ [k])
    (hsizes' : weights.sizes = [n, k])
    (hscale : ∀ t ∈ scale, t.WellFormed ∧ SpreadsTo t.sizes weights.sizes)
    (hzeroPoint : ∀ t ∈ zeroPoint, t.WellFormed ∧ SpreadsTo t.sizes weights.sizes) :
    ((∃ t, fullyConnected input weights scale zeroPoint = .ok t) ↔
      if k = 0 then wrap (volume batch * n) = 0 else volume batch * n < UInt64.size) ∧
    (k = 0 → wrap (volume batch * n) ≠ 0 →
      fullyConnected input weights scale zeroPoint =
        failExecution (.elementCount (batch ++ [n]) 0)) ∧
    ∀ t, fullyConnected input weights scale zeroPoint = .ok t →
      t.element = .f32 ∧ t.sizes = batch ++ [n] ∧
      ∀ r j, InRange r batch → j < n → ∃ x w : Nat → Binary32,
        (∀ p < k, input.scalar? (r ++ [p]) = some (.f32 (x p)) ∧
          weights.weight? scale zeroPoint [j, p] = some (w p)) ∧
        t.scalar? (r ++ [j]) =
          if k = 0 then none else some (.f32 (sumOfProducts .negZero k x w)) := by
  obtain ⟨x, hx⟩ := exists_floats_of_element helement
  obtain ⟨w, hw, hentries⟩ := exists_decompress hweights hscale hzeroPoint
  have hproduct := fullyConnected_eq_ofFloats hinput hweights hx hsizes hsizes' hw
  have hlength : (rowProducts x w (foundRows batch k) n k).flatten.toArray.size =
      foundRows batch k * n := by
    rw [List.size_toArray, length_rowProducts]
  refine ⟨?_, ?_, ?_⟩
  · rw [← wordVolume_eq_foundRows_iff, hproduct, ← hlength]
    constructor
    · rintro ⟨t, ht⟩
      obtain ⟨hsizes, helements⟩ := new_eq_ok_iff.1 ht
      rw [← hsizes, t.count_eq, helements, Elements.size]
    · intro hcount
      exact ⟨⟨_, .f32 _, hcount⟩, new_eq_ok_iff.2 ⟨rfl, rfl⟩⟩
  · rintro rfl hcount
    rw [hproduct, ofFloats, new, foundRows, if_pos rfl, dif_neg]
    · rfl
    · rw [wordVolume_eq, volume_append_singleton]
      exact hcount
  · intro t ht
    obtain ⟨htsizes, helements⟩ := new_eq_ok_iff.1 (hproduct.symm.trans ht)
    refine ⟨element_of_floats helements, htsizes, fun r j hr hj => ?_⟩
    refine ⟨_, _, fun p hp => ⟨scalar?_row hinput hx hsizes hr hp,
      weight?_row hweights hsizes' hw hentries hj hp⟩, ?_⟩
    have hrange : InRange (r ++ [j]) t.sizes := by
      rw [htsizes]
      exact List.rel_append hr (.cons hj .nil)
    have hread : t.scalar? (r ++ [j]) =
        ((rowProducts x w (foundRows batch k) n k).flatten[number r (places batch) * n + j]?).map
          .f32 := by
      rw [scalar?_eq_map helements hrange, htsizes, number_append_singleton hr.length_eq,
        List.getElem?_toArray]
    rw [hread]
    by_cases hk : k = 0
    · rw [if_pos hk, foundRows, if_pos hk]
      rfl
    · have hfound : number r (places batch) < foundRows batch k := by
        rw [foundRows, if_neg hk]
        exact number_lt hr
      rw [if_neg hk, getElem?_rowProducts hfound hj, Option.map_some]

section Compressed

/-- A row of two numbers. -/
def oneRow : Tensor := ⟨[1, 2], .f32 ([1, 10].map .ofInt).toArray, by decide +kernel⟩

/-- Two rows of integer weights. -/
def integerWeights : Tensor := ⟨[2, 2], .i32 #[5, 6, 7, 8], by decide⟩

/-- A scale for each row of the weights. -/
def rowScale : Tensor := ⟨[2, 1], .f32 ([2, 3].map .ofInt).toArray, by decide +kernel⟩

/-- One zero point for all weights. -/
def commonZeroPoint : Tensor := ⟨[1], .i64 #[4], by decide⟩

/-- Integer weights are centred, scaled by their rows and multiplied. -/
theorem fullyConnected_entries_compressed :
    ∃ t, fullyConnected oneRow integerWeights (some rowScale) (some commonZeroPoint) = .ok t ∧
      t.sizes = [1, 2] ∧ t.scalar? [0, 1] = some (.f32 (.ofInt 129)) := by
  have hinput : oneRow.sizes = [1] ++ [2] := rfl
  obtain ⟨hsucceeds, -, hresult⟩ := fullyConnected_entries oneRow integerWeights (some rowScale)
    (some commonZeroPoint) (by decide +kernel) (by decide) rfl hinput rfl (by decide +kernel)
    (by decide)
  obtain ⟨t, ht⟩ := hsucceeds.2 (by decide)
  obtain ⟨-, hsizes, hentries⟩ := hresult t ht
  obtain ⟨x, w, hxw, hentry⟩ := hentries [0] 1 (by decide) (by decide)
  rw [if_neg (by decide)] at hentry
  have hrow : ∀ p < 2, oneRow.scalar? [0, p] = some (.f32 (.ofInt (10 ^ p))) := by decide +kernel
  have hweights : ∀ p < 2, integerWeights.weight? (some rowScale) (some commonZeroPoint) [1, p] =
      some (.ofInt (9 + 3 * p)) := by
    decide +kernel
  have hx : ∀ p < 2, x p = .ofInt (10 ^ p) := fun p hp =>
    Scalar.f32.inj (Option.some.inj ((hxw p hp).1.symm.trans (hrow p hp)))
  have hw : ∀ p < 2, w p = .ofInt (9 + 3 * p) := fun p hp =>
    Option.some.inj ((hxw p hp).2.symm.trans (hweights p hp))
  have hsum : sumOfProducts .negZero 2 x w = .negZero + x 0 * w 0 + x 1 * w 1 := rfl
  rw [hx 0 (by decide), hx 1 (by decide), hw 0 (by decide), hw 1 (by decide)] at hsum
  refine ⟨t, ht, hsizes, hentry.trans ?_⟩
  rw [hsum]
  decide +kernel

end Compressed

section Hollow

/-- One row without elements. -/
def hollow : Tensor := ⟨[1, 0], .f32 #[], rfl⟩

/-- The right operand is transposed, as weights are. -/
def byRows : GemmSpec := ⟨.f32, false, true, .one, .zero, 2, 2⟩

/-- The matrix product of two rows without elements is a zero. The product with weights of the same
sizes fails. -/
theorem not_fullyConnected_hollow :
    (∃ t, hollow.gemm hollow byRows = .ok t ∧ t.sizes = [1, 1]) ∧
      ¬ ∃ t, fullyConnected hollow hollow none none = .ok t := by
  refine ⟨⟨⟨[1, 1], .f32 #[.zero], rfl⟩, by decide +kernel, rfl⟩, ?_⟩
  rintro ⟨t, ht⟩
  have hfails : fullyConnected hollow hollow none none =
      failExecution (.elementCount [1, 1] 0) := by decide +kernel
  exact Outcome.fail_ne_ok (hfails.symm.trans ht)

end Hollow

end Tensor

end TensorLowering
