import TensorLowering.Proofs.Returns
import TensorLowering.Proofs.Tensor.Concatenation
import TensorLowering.Proofs.Tensor.Permutation
import TensorLowering.Proofs.Tensor.Product

/-!
# Kernels return

No kernel reads outside of its operands or takes a remainder by zero, whatever the sizes of the
operands are, as long as these are well formed: either its checks refuse the operands, or all
coordinates that it reads at are in range. Permuting needs an order that has every axis once besides,
and cropping a range whose end fits in a word.

## Main statements

* `Tensor.returns_gemm`, `Tensor.returns_fullyConnected`, `Tensor.returns_concat` and their siblings.
* `Tensor.returns_permute`: a permutation of the axes can be applied.
-/

namespace TensorLowering.Tensor

open Numeric Indexing Outcome

variable {t : Tensor}

theorem returns_new (sizes : List Nat) (elements : Elements) : Returns (new sizes elements) := by
  rw [new]
  split
  · exact returns_ok _
  · exact returns_fail _

theorem returns_ofFloats (sizes : List Nat) (values : List Binary32) :
    Returns (ofFloats sizes values) :=
  returns_new _ _

theorem returns_floats (t : Tensor) : Returns t.floats := by
  rw [floats]
  split
  · exact returns_ok _
  · exact returns_fail _

/-- The numbers of a well-formed tensor are as many as its sizes stand for. -/
theorem size_of_floats {values : Array Binary32} (ht : t.WellFormed) (h : t.floats = .ok values) :
    values.size = volume t.sizes :=
  ht.size_eq (floats_eq_ok_iff.1 h)

theorem returns_broadcast (lhs rhs : List Nat) : Returns (broadcast lhs rhs) :=
  returns_ofOptionOr _ _

theorem broadcast_eq_ok_iff {lhs rhs sizes : List Nat} :
    broadcast lhs rhs = .ok sizes ↔ broadcastSizes lhs rhs = some sizes :=
  ofOptionOr_eq_ok_iff

/-- An operand has the element that it is read at. -/
theorem returns_elementAt {values : Array Binary32} {lhs rhs sizes coords : List Nat}
    (hcount : values.size = volume lhs) (h : broadcastSizes lhs rhs = some sizes)
    (hcoords : InRange coords sizes) : Returns (elementAt values lhs coords) := by
  obtain ⟨k, hk, hlt⟩ := exists_sourceOffset h hcoords
  have hbound : wrap k < values.size := hcount ▸ Nat.lt_of_le_of_lt (wrap_le k) hlt
  rw [elementAt, hk]
  exact returns_ofOption ⟨_, Array.getElem?_eq_getElem hbound⟩

/-- What is computed at the coordinates of numbers below the volume returns when it does at coordinates
in range. -/
theorem returns_mapM_coordinates {β : Type} {sizes : List Nat} {count : Nat}
    (hcount : count ≤ volume sizes) {f : List Nat → Outcome EngineError β}
    (h : ∀ coords, InRange coords sizes → Returns (f coords)) :
    Returns ((List.range count).mapM fun index => do
      let coords ← coordinates sizes index
      f coords) := by
  apply Returns.mapM
  intro index hindex
  obtain ⟨coords, hcoords, hrange⟩ :=
    exists_coordinates (Nat.lt_of_lt_of_le (List.mem_range.1 hindex) hcount)
  rw [hcoords]
  exact h coords hrange

theorem returns_eltwise (mode : EltwiseMode) {lhs rhs : Tensor} (hlhs : lhs.WellFormed)
    (hrhs : rhs.WellFormed) : Returns (eltwise mode lhs rhs) := by
  rw [eltwise]
  refine (returns_floats lhs).bind fun a ha => ?_
  refine (returns_floats rhs).bind fun b hb => ?_
  refine (returns_broadcast _ _).bind fun sizes hsizes => ?_
  rw [broadcast_eq_ok_iff] at hsizes
  refine Returns.bind ?_ fun values _ => returns_ofFloats _ _
  apply returns_mapM_coordinates (wordVolume_le sizes)
  intro coords hcoords
  refine (returns_elementAt (size_of_floats hlhs ha) hsizes hcoords).bind fun x _ => ?_
  rw [broadcastSizes_comm] at hsizes
  exact (returns_elementAt (size_of_floats hrhs hb) hsizes hcoords).bind fun y _ => returns_pure _

theorem returns_erf (t : Tensor) (f : ErrorFunction) : Returns (t.erf f) := by
  rw [erf]
  exact (returns_floats t).bind fun values _ => returns_ofFloats _ _

theorem size_toFloats (elements : Elements) : elements.toFloats.size = elements.size := by
  cases elements with
  | f32 values => rfl
  | i32 values => exact Array.size_map
  | i64 values => exact Array.size_map

theorem returns_spread (ht : t.WellFormed) (target : List Nat) : Returns (t.spread target) := by
  rw [spread]
  refine (returns_broadcast _ _).bind fun sizes hsizes => ?_
  rw [broadcast_eq_ok_iff] at hsizes
  split
  · exact returns_fail_bind _ _
  · next heq =>
    obtain rfl : sizes = target := not_not.1 heq
    apply returns_mapM_coordinates (wordVolume_le sizes)
    intro coords hcoords
    have hcount : t.elements.toFloats.size = volume t.sizes := by rw [size_toFloats, ht]
    exact returns_elementAt hcount hsizes hcoords

/-- An order that has every axis once can be applied. -/
theorem returns_permute (ht : t.WellFormed) {order : List Nat}
    (h : order.Perm (List.range order.length)) : Returns (t.permute order) := by
  by_cases hrank : order.length = t.rank
  · rw [hrank] at h
    obtain ⟨p, rfl⟩ := exists_axes_iff.2 h
    obtain ⟨y, hy, -⟩ := exists_permuted ht rfl p
    rw [hy]
    exact returns_ok _
  · rw [permute, if_pos (.inl hrank)]
    exact returns_fail_bind _ _

theorem returns_reshape (t : Tensor) (sizes : List Nat) : Returns (t.reshape sizes) := by
  rw [reshape]
  split
  · exact returns_fail _
  · exact returns_new _ _

/-- A range whose end fits in a word can be cropped, or is refused. -/
theorem returns_crop (ht : t.WellFormed) (axis : Nat) {start length : Nat}
    (hword : start + length < UInt64.size) : Returns (t.crop axis start length) := by
  cases hsize : t.sizes[axis]? with
  | none =>
      simp only [crop, hsize]
      exact returns_fail _
  | some size =>
      rcases Nat.lt_or_ge size (start + length) with hlt | hpart
      · simp only [crop, hsize, wrap_of_lt hword, if_pos hlt]
        exact returns_fail_bind _ _
      · obtain ⟨piece, hpiece, -⟩ := exists_crop ht hsize hpart hword
        rw [hpiece]
        exact returns_ok _

/-- Every element has a slot among the kept sizes, and its number does not wrap around. -/
theorem slot_eq_number (ht : t.WellFormed) (axes : List Nat) {coords : List Nat}
    (hcoords : InRange coords t.sizes) (hzero : 0 ∉ t.sizes) :
    offset (keptCoordinates axes coords) (strides (keptSizes axes t.sizes)) =
        number (keptCoordinates axes coords) (places (keptSizes axes t.sizes)) ∧
      offset (keptCoordinates axes coords) (strides (keptSizes axes t.sizes)) <
        wordVolume (keptSizes axes t.sizes) := by
  have hkept : volume (keptSizes axes t.sizes) < UInt64.size :=
    Nat.lt_of_le_of_lt (volume_keptSizes_le axes hzero) ht.volume_lt
  have hlt := number_lt (inRange_keptCoordinates axes hcoords)
  rw [offset_strides, wordVolume_eq_volume_iff.2 hkept, wrap_of_lt (Nat.lt_trans hlt hkept)]
  exact ⟨rfl, hlt⟩

theorem returns_reduce (ht : t.WellFormed) (mode : ReduceMode) (axes : List Nat) (keepDims : Bool) :
    Returns (t.reduce mode axes keepDims) := by
  rw [reduce]
  refine (returns_floats t).bind fun values hvalues => ?_
  have hcount := size_of_floats ht hvalues
  cases hfits : axes.find? (t.rank ≤ ·) with
  | some axis => exact returns_fail_bind _ _
  | none =>
      have hextents : ∃ extents, axes.mapM (t.sizes[·]?) = some extents := by
        apply exists_mapM_eq_some
        intro axis haxis
        have hlt : ¬ t.rank ≤ axis := by simpa using List.find?_eq_none.1 hfits axis haxis
        exact ⟨_, List.getElem?_eq_getElem (Nat.not_le.1 hlt)⟩
      refine (returns_ofOption hextents).bind fun extents _ => ?_
      refine Returns.bind ?_ fun hits _ => returns_ofFloats _ _
      apply Returns.mapM
      rintro ⟨value, index⟩ hhit
      have hindex : index < volume t.sizes := by
        rw [← hcount]
        simpa using (List.mem_zipIdx hhit).2.1
      obtain ⟨coords, hcoords, hrange⟩ := exists_coordinates hindex
      have hslot := (slot_eq_number ht axes hrange (zero_notMem_of_lt_volume hindex)).2
      simp only [hcoords]
      exact Returns.ite (fun _ => returns_pure _) fun hnot => absurd hslot hnot

section Concat

variable {α : Type}

theorem returns_partsOf (view : Elements → Option (Array α)) (inputs : List Tensor) :
    Returns (partsOf view inputs) :=
  Returns.mapM fun _ _ => returns_ofOptionOr _ _

/-- Parts that agree on all other axes can be joined. -/
theorem returns_joined {view : Elements → Option (Array α)} {make : Array α → Elements}
    (hview : ∀ elements values, view elements = some values → values.size = elements.size)
    {inputs : List Tensor} {sizes first : List Nat} {axis : Nat} (hwell : ∀ t ∈ inputs, t.WellFormed)
    (hagree : ∀ t ∈ inputs, agreeExcept axis t.sizes first = true) :
    Returns (do
      let parts ← partsOf view inputs
      new sizes (make (← joinChunks (wordVolume (first.take axis))
        (parts.zip (inputs.map fun t => wordVolume (t.sizes.drop axis)))))) := by
  refine (returns_partsOf view inputs).bind fun parts hparts => ?_
  have hread := mapM_eq_ok_iff.1 hparts
  -- each tensor has its elements in the form that is asked for
  obtain ⟨values, rfl⟩ : ∃ values : Tensor → Array α, inputs.map values = parts := by
    refine ⟨fun t => (view t.elements).getD #[], ?_⟩
    rw [← List.forall₂_eq_eq_eq, List.forall₂_map_left_iff]
    exact hread.imp fun t part hpart => by rw [ofOptionOr_eq_ok_iff.1 hpart, Option.getD_some]
  have hsize : ∀ t ∈ inputs, (values t).size = volume t.sizes := by
    rw [List.forall₂_map_right_iff, List.forall₂_same] at hread
    intro t ht
    rw [hview _ _ (ofOptionOr_eq_ok_iff.1 (hread t ht)), hwell t ht]
  have hchunks : ∀ t ∈ inputs,
      (values t).size = volume (first.take axis) * volume (t.sizes.drop axis) := by
    intro t ht
    obtain ⟨-, herase⟩ : t.sizes.length = first.length ∧
        t.sizes.eraseIdx axis = first.eraseIdx axis := by
      simpa [agreeExcept] using hagree t ht
    have hfront : t.sizes.take axis = first.take axis := by
      calc
        t.sizes.take axis = (t.sizes.eraseIdx axis).take axis := by
          rw [List.take_eraseIdx_eq_take_of_le _ _ _ (Nat.le_refl axis)]
        _ = first.take axis := by
          rw [herase, List.take_eraseIdx_eq_take_of_le _ _ _ (Nat.le_refl axis)]
    rw [hsize t ht, ← hfront, ← volume_append, List.take_append_drop]
  simp only [wordVolume_eq]
  rw [List.zip_map', joinChunks_eq_ok hchunks fun t ht => hsize t ht ▸ (hwell t ht).volume_lt]
  exact returns_new _ _

theorem returns_concat {inputs : List Tensor} (hwell : ∀ t ∈ inputs, t.WellFormed) (axis : Nat) :
    Returns (concat inputs axis) := by
  cases hfirst : inputs.head? with
  | none =>
      simp only [concat, hfirst]
      exact returns_fail _
  | some first =>
      simp only [concat, hfirst]
      split
      · exact returns_fail_bind _ _
      · next haxis =>
        rw [Nat.not_le] at haxis
        refine Returns.bind ?_ fun _ hcheck => ?_
        · exact Returns.forM fun t _ =>
            Returns.ite (fun _ => returns_pure _) fun _ => returns_fail _
        · have hagree : ∀ t ∈ inputs, agreeExcept axis t.sizes first.sizes = true := by
            intro t ht
            have hone := forM_eq_ok_iff.1 hcheck t ht
            split at hone
            · next hagree => exact hagree
            · exact absurd hone fail_ne_ok
          have hextents : ∃ extents, inputs.mapM (·.sizes[axis]?) = some extents := by
            apply exists_mapM_eq_some
            intro t ht
            have hlength : t.sizes.length = first.sizes.length := by
              have hboth := hagree t ht
              rw [agreeExcept, Bool.and_eq_true] at hboth
              exact beq_iff_eq.1 hboth.1
            exact ⟨_, List.getElem?_eq_getElem (hlength ▸ haxis)⟩
          refine (returns_ofOption hextents).bind fun extents _ => ?_
          -- the three element types differ in the view of the elements only
          split
          · refine returns_joined (fun elements values hview => ?_) hwell hagree
            cases elements <;> cases hview
            rfl
          · refine returns_joined (fun elements values hview => ?_) hwell hagree
            cases elements <;> cases hview
            rfl
          · refine returns_joined (fun elements values hview => ?_) hwell hagree
            cases elements <;> cases hview
            rfl

end Concat

section Products

variable {vector : Nat → Nat × Nat}

/-- The elements of an operand are those of its matrices. -/
theorem volume_of_ofSizes (hvector : ∀ k, (vector k).1 * (vector k).2 = k) {sizes : List Nat}
    {m : MatrixSizes} (h : MatrixSizes.ofSizes vector sizes = some m) :
    volume sizes = volume m.batch * (m.rows * m.columns) := by
  induction sizes using MatrixSizes.ofSizes.induct generalizing m with
  | case1 => cases h
  | case2 length =>
      obtain rfl := Option.some.inj h
      simp [volume, hvector]
  | case3 rows columns =>
      obtain rfl := Option.some.inj h
      simp [volume]
  | case4 size rest hone htwo ih =>
      rw [MatrixSizes.ofSizes] at h
      · obtain ⟨inner, hinner, rfl⟩ := Option.map_eq_some_iff.1 h
        rw [volume, volume, ih hinner, Nat.mul_assoc]
      · exact hone
      · exact htwo

/-- The sum of `length` products of corresponding factors, added in order to `start`. -/
def sumOfProducts (start : Binary32) (length : Nat) (x y : Nat → Binary32) : Binary32 :=
  (List.range length).foldl (fun total p => total + x p * y p) start

section Dot

variable {length : Nat} {left right : Nat → Outcome EngineError Binary32}

theorem dot_eq_ok (start : Binary32) {x y : Nat → Binary32} (hleft : ∀ p < length, left p = .ok (x p))
    (hright : ∀ p < length, right p = .ok (y p)) :
    dot start length left right = .ok (sumOfProducts start length x y) := by
  calc
    dot start length left right = dot start length (fun p => .ok (x p)) (fun p => .ok (y p)) :=
      Factor.dot_congr hleft hright
    _ = .ok (sumOfProducts start length x y) := List.foldlM_pure

/-- A sum of products has a value when all of its factors are there. -/
theorem exists_dot (start : Binary32) (hleft : ∀ p < length, ∃ x, left p = .ok x)
    (hright : ∀ p < length, ∃ y, right p = .ok y) :
    ∃ total, dot start length left right = .ok total := by
  have : Nonempty Binary32 := ⟨start⟩
  choose! x hx using hleft
  choose! y hy using hright
  exact ⟨_, dot_eq_ok start hx hy⟩

end Dot

namespace Factor

/-- A factor has all of its entries. -/
def Filled (a : Factor) : Prop :=
  ∀ q i j, q < volume a.batch → i < a.rows → j < a.columns → ∃ x, a.entry q i j = some x

/-- Factors that have all of their entries have an entry of their product. -/
theorem exists_productEntry {a b : Factor} (hA : a.Filled) (hB : b.Filled)
    (hdepth : a.columns = b.rows) (alpha : Binary32) {q r i j : Nat} (hq : q < volume a.batch)
    (hr : r < volume b.batch) (hi : i < a.rows) (hj : j < b.columns) :
    ∃ entry, a.productEntry b alpha q r i j = .ok entry := by
  have hdot : ∃ total, dot .zero a.columns (fun p => .ofOption (a.entry q i p))
      (fun p => .ofOption (b.entry r p j)) = .ok total := by
    apply exists_dot
    · intro p hp
      obtain ⟨x, hx⟩ := hA q i p hq hi hp
      exact ⟨x, ofOption_eq_ok_iff.2 hx⟩
    · intro p hp
      obtain ⟨y, hy⟩ := hB r p j hr (hdepth ▸ hp) hj
      exact ⟨y, ofOption_eq_ok_iff.2 hy⟩
  obtain ⟨total, htotal⟩ := hdot
  refine ⟨alpha * total, ?_⟩
  rw [productEntry, htotal]
  rfl

/-- Factors that have all of their entries have a product. -/
theorem exists_productEntries {a b : Factor} (hA : a.Filled) (hB : b.Filled)
    (hperiodicA : a.Periodic) (hperiodicB : b.Periodic) (hdepth : a.columns = b.rows)
    {batch : List Nat} (hbatch : broadcastSizes a.batch b.batch = some batch) (alpha : Binary32) :
    ∃ entries, a.productEntries b alpha batch = .ok entries := by
  rw [productEntries_eq hperiodicA hperiodicB hbatch]
  apply exists_mapM_eq_ok
  intro index hindex
  have hlt := Nat.lt_of_lt_of_le (List.mem_range.1 hindex) (wordVolume_le batch)
  apply exists_mapM_eq_ok
  intro i hi
  apply exists_mapM_eq_ok
  intro j hj
  exact exists_productEntry hA hB hdepth alpha (matrixAt_lt hbatch hlt)
    (matrixAt_lt ((broadcastSizes_comm _ _).trans hbatch) hlt) (List.mem_range.1 hi)
    (List.mem_range.1 hj)

end Factor

/-- A well-formed operand that is read as a factor has all of its entries. -/
theorem filled_of_factor? (hvector : ∀ k, (vector k).1 * (vector k).2 = k) (ht : t.WellFormed)
    {transpose : Bool} {a : Factor} (h : t.factor? vector transpose = some a) : a.Filled := by
  obtain ⟨m, hm, h⟩ := Option.bind_eq_some_iff.1 h
  have hvolume := volume_of_ofSizes hvector hm
  rw [ht] at hvolume
  -- an entry of a matrix that is inside of it is an element of the tensor
  have hentry : ∀ {values : Array Binary32}, t.elements = .f32 values → ∀ {q i p : Nat},
      q < volume m.batch → i < m.rows → p < m.columns →
      ∃ x, values[wrap (q * m.area + (i * m.columns + p))]? = some x := by
    intro values hvalues q i p hq hi hp
    have hlt := (matrix_index_lt_iff hi hp).2 hq
    rw [← hvolume, hvalues] at hlt
    exact ⟨_, Array.getElem?_eq_getElem (Nat.lt_of_le_of_lt (wrap_le _) hlt)⟩
  split at h
  · next values hvalues =>
    split at h
    · obtain rfl := Option.some.inj h
      intro q i j hq hi hj
      exact hentry hvalues hq hj hi
    · obtain rfl := Option.some.inj h
      intro q i j hq hi hj
      exact hentry hvalues hq hi hj
  · cases h

theorem returns_gemm {lhs rhs : Tensor} (hlhs : lhs.WellFormed) (hrhs : rhs.WellFormed)
    (spec : GemmSpec) : Returns (lhs.gemm rhs spec) := by
  rcases hleft : MatrixSizes.ofSizes (fun k => (1, k)) lhs.sizes with _ | left
  · simp only [gemm, hleft]
    exact returns_fail _
  rcases hright : MatrixSizes.ofSizes (fun k => (k, 1)) rhs.sizes with _ | right
  · simp only [gemm, hleft, hright]
    exact returns_fail _
  simp only [gemm, hleft, hright]
  refine (returns_floats lhs).bind fun valuesA hA => ?_
  refine (returns_floats rhs).bind fun valuesB hB => ?_
  rw [floats_eq_ok_iff] at hA hB
  -- the transpose flags decide how both operands are read
  rcases hflagA : spec.transposeA && !decide (lhs.rank = 1) with _ | _ <;>
  rcases hflagB : spec.transposeB && !decide (rhs.rank = 1) with _ | _ <;>
  · obtain ⟨a, ha⟩ : ∃ a, lhs.factor? (fun k => (1, k)) spec.transposeA = some a := by
      simp [factor?, hleft, hA, hflagA]
    obtain ⟨b, hb⟩ : ∃ b, rhs.factor? (fun k => (k, 1)) spec.transposeB = some b := by
      simp [factor?, hright, hB, hflagB]
    have hfilledA := filled_of_factor? Nat.one_mul hlhs ha
    have hfilledB := filled_of_factor? Nat.mul_one hrhs hb
    have hperiodicA := periodic_of_factor? ha
    have hperiodicB := periodic_of_factor? hb
    simp only [factor?, hleft, hright, hA, hB, hflagA, hflagB, Option.bind_eq_bind, Option.bind_some,
      if_true, Bool.false_eq_true, if_false, Option.some.injEq] at ha hb
    subst ha hb
    simp only [if_true, Bool.false_eq_true, if_false, wrap_wrap_add]
    split
    · exact returns_fail_bind _ _
    · next hdepth =>
      refine (returns_broadcast _ _).bind fun batch hbatch => ?_
      obtain ⟨entries, hentries⟩ := Factor.exists_productEntries hfilledA hfilledB
        hperiodicA hperiodicB (not_not.1 hdepth) (broadcast_eq_ok_iff.1 hbatch) spec.alpha
      have hproduct : Returns (Factor.productEntries _ _ spec.alpha batch) :=
        hentries ▸ returns_ok entries
      exact hproduct.bind fun _ _ => returns_ofFloats _ _

end Products

section FullyConnected

theorem length_of_spread {t : Tensor} {target : List Nat} {values : List Binary32}
    (h : t.spread target = .ok values) : values.length = wordVolume target := by
  rw [spread] at h
  obtain ⟨sizes, -, h⟩ := bind_eq_ok_iff.1 h
  split at h
  · simp [failExecution, bind_eq_ok_iff] at h
  · rw [← (mapM_eq_ok_iff.1 h).length_eq, List.length_range]

/-- The numbers of weights after a correction that may be missing. -/
def corrected (f : Binary32 → Binary32 → Binary32) (values : List Binary32) (sizes : List Nat) :
    Option Tensor → Outcome EngineError (List Binary32)
  | some t => do pure (List.zipWith f values (← t.spread sizes))
  | none => pure values

theorem returns_corrected (f : Binary32 → Binary32 → Binary32) (values : List Binary32)
    (sizes : List Nat) {correction : Option Tensor} (h : ∀ t ∈ correction, t.WellFormed) :
    Returns (corrected f values sizes correction) := by
  cases correction with
  | none => exact returns_pure _
  | some t => exact (returns_spread (h t rfl) sizes).bind fun _ _ => returns_pure _

theorem length_of_corrected {f : Binary32 → Binary32 → Binary32} {values values' : List Binary32}
    {sizes : List Nat} {correction : Option Tensor} (hlength : values.length = wordVolume sizes)
    (h : corrected f values sizes correction = .ok values') : values'.length = wordVolume sizes := by
  cases correction with
  | none =>
      obtain rfl := pure_eq_ok_iff.1 h
      exact hlength
  | some t =>
      obtain ⟨spreaded, hspreaded, h⟩ := bind_eq_ok_iff.1 h
      obtain rfl := pure_eq_ok_iff.1 h
      rw [List.length_zipWith, hlength, length_of_spread hspreaded, Nat.min_self]

/-- Weights are centred and then scaled. -/
theorem decompress_eq (weights : Tensor) (scale zeroPoint : Option Tensor) :
    decompress weights scale zeroPoint = (do
      let centred ← corrected (· - ·) weights.elements.toFloats.toList weights.sizes zeroPoint
      let scaled ← corrected (· * ·) centred weights.sizes scale
      pure scaled.toArray) := by
  cases scale <;> cases zeroPoint <;> simp only [decompress, corrected, bind_assoc, pure_bind]

theorem returns_decompress (weights : Tensor) {scale zeroPoint : Option Tensor}
    (hscale : ∀ t ∈ scale, t.WellFormed) (hzeroPoint : ∀ t ∈ zeroPoint, t.WellFormed) :
    Returns (decompress weights scale zeroPoint) := by
  rw [decompress_eq]
  refine (returns_corrected _ _ _ hzeroPoint).bind fun _ _ => ?_
  exact (returns_corrected _ _ _ hscale).bind fun _ _ => returns_pure _

/-- Weights keep their number when they are decompressed. -/
theorem size_of_decompress {weights : Tensor} {scale zeroPoint : Option Tensor}
    {values : Array Binary32} (h : decompress weights scale zeroPoint = .ok values) :
    values.size = wordVolume weights.sizes := by
  rw [decompress_eq] at h
  obtain ⟨centred, hcentred, h⟩ := bind_eq_ok_iff.1 h
  obtain ⟨scaled, hscaled, h⟩ := bind_eq_ok_iff.1 h
  obtain rfl := pure_eq_ok_iff.1 h
  have hplain : weights.elements.toFloats.toList.length = wordVolume weights.sizes := by
    rw [Array.length_toList, size_toFloats, weights.count_eq]
  rw [List.size_toArray]
  exact length_of_corrected (length_of_corrected hplain hcentred) hscaled

/-- The number in a column of a row is there. -/
theorem getElem?_row {values : Array Binary32} {rows columns i p : Nat}
    (hsize : rows * columns ≤ values.size) (hi : i < rows) (hp : p < columns) :
    values[i * columns + p]? = some (values[i * columns + p]?.getD .zero) := by
  have hlt := Nat.lt_of_lt_of_le (row_index_lt hi hp) hsize
  rw [Array.getElem?_eq_getElem hlt, Option.getD_some]

/-- The number in a column of a row is found by what a word keeps of its place. -/
theorem getElem?_wrap_row {values : Array Binary32} {rows columns i p : Nat}
    (hsize : rows * columns ≤ values.size) (hword : values.size < UInt64.size) (hi : i < rows)
    (hp : p < columns) :
    values[wrap (i * columns + p)]? = some (values[i * columns + p]?.getD .zero) := by
  have hlt := Nat.lt_of_lt_of_le (row_index_lt hi hp) hsize
  rw [wrap_of_lt (Nat.lt_trans hlt hword)]
  exact getElem?_row hsize hi hp

theorem returns_fullyConnected {input weights : Tensor} {scale zeroPoint : Option Tensor}
    (hweights : weights.WellFormed) (hscale : ∀ t ∈ scale, t.WellFormed)
    (hzeroPoint : ∀ t ∈ zeroPoint, t.WellFormed) :
    Returns (fullyConnected input weights scale zeroPoint) := by
  rw [fullyConnected]
  refine (returns_floats input).bind fun x hx => ?_
  cases hlast : input.sizes.getLast? with
  | none => exact returns_fail _
  | some k =>
      -- only weights with two axes get past the match
      rcases hsizes : weights.sizes with _ | ⟨n, _ | ⟨depth, _ | ⟨_, _⟩⟩⟩
      · exact returns_fail _
      · exact returns_fail _
      · by_cases hdepth : depth = k
        · subst hdepth
          simp only [ne_eq, not_true_eq_false, if_false]
          refine (returns_decompress _ hscale hzeroPoint).bind fun w hw => ?_
          have hsize : n * depth = w.size := by
            rw [size_of_decompress hw, hweights.wordVolume_eq, hsizes, volume_pair]
          have hword : w.size < UInt64.size := by
            rw [size_of_decompress hw]
            exact wordVolume_lt _
          refine Returns.bind (Returns.mapM fun r hr => Returns.mapM fun j hj => ?_)
            fun _ _ => returns_ofFloats _ _
          rw [List.mem_range] at hr hj
          have hrows : (if depth = 0 then 0 else x.size / depth) * depth ≤ x.size := by
            split
            · rw [Nat.zero_mul]
              exact Nat.zero_le _
            · exact Nat.div_mul_le_self _ _
          obtain ⟨total, htotal⟩ := exists_dot .negZero
            (fun p hp => ⟨_, ofOption_eq_ok_iff.2 (getElem?_row hrows hr hp)⟩)
            fun p hp => ⟨_, ofOption_eq_ok_iff.2 (getElem?_wrap_row hsize.le hword hj hp)⟩
          exact htotal ▸ returns_ok total
        · simp only [ne_eq, hdepth, not_false_eq_true, if_true]
          exact returns_fail_bind _ _
      · exact returns_fail _

end FullyConnected

theorem returns_convertElements (target : ElementType) (elements : Elements) :
    Returns (convertElements target elements) := by
  cases elements <;> cases target <;> first | exact returns_ok _ | exact returns_fail _

theorem returns_convert (t : Tensor) (target : ElementType) : Returns (t.convert target) := by
  rw [convert]
  refine Returns.ite (fun _ => returns_pure _) fun _ => ?_
  exact (returns_convertElements _ _).bind fun _ _ => returns_new _ _

end TensorLowering.Tensor
