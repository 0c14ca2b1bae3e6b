import TensorLowering.Proofs.Tensor.Bounds
import TensorLowering.Tensor.Product

/-!
# Factors of matrix products

A product reads each operand as a batch of matrices, transposed or not. Two operands that are read
as the same matrices have the same products; so an operand can be transposed in front of the product
instead of while it is read.

## Main statements

* `Tensor.gemm_eq_ok_iff`: a product depends on its operands only through their factors.
* `Tensor.factor?_permute`: a permuted operand that is well formed is the same factor as a transposed
  one.
-/

namespace TensorLowering

open Numeric Indexing

namespace Tensor

/-- An operand of a product as it is read: a batch of matrices with entries. -/
structure Factor where
  batch : List Nat
  rows : Nat
  columns : Nat
  entry : Nat → Nat → Nat → Option Binary32

namespace Factor

/-- Factors with the same sizes and the same entries inside of them. -/
structure Same (a b : Factor) : Prop where
  batch_eq : a.batch = b.batch
  rows_eq : a.rows = b.rows
  columns_eq : a.columns = b.columns
  entry_eq : ∀ q i j, q < volume a.batch → i < a.rows → j < a.columns →
    a.entry q i j = b.entry q i j

theorem Same.refl (a : Factor) : a.Same a := ⟨rfl, rfl, rfl, fun _ _ _ _ _ _ => rfl⟩

/-- A matrix is found by what a word keeps of its number. -/
def Periodic (a : Factor) : Prop := ∀ q i j, a.entry (wrap q) i j = a.entry q i j

/-- An entry of the product of two matrices of the batches, with the numbers of the matrices. -/
def productEntry (a b : Factor) (alpha : Binary32) (q r i j : Nat) :
    Outcome EngineError Binary32 := do
  let total ← dot .zero a.columns (fun p => .ofOption (a.entry q i p))
    (fun p => .ofOption (b.entry r p j))
  pure (alpha * total)

/-- The entries of the product, matrix by matrix and row by row. -/
def productEntries (a b : Factor) (alpha : Binary32) (batch : List Nat) :
    Outcome EngineError (List (List (List Binary32))) :=
  (List.range (wordVolume batch)).mapM fun index => do
    let coords ← coordinates batch index
    let q ← sourceOffset coords a.batch
    let r ← sourceOffset coords b.batch
    (List.range a.rows).mapM fun i =>
      (List.range b.columns).mapM fun j => a.productEntry b alpha q r i j

theorem foldlM_congr {α β : Type} {f g : β → α → Outcome EngineError β} {xs : List α}
    (h : ∀ x ∈ xs, ∀ b, f b x = g b x) (b : β) : xs.foldlM f b = xs.foldlM g b := by
  induction xs generalizing b with
  | nil => rfl
  | cons x xs ih =>
      obtain ⟨hx, hxs⟩ := List.forall_mem_cons.1 h
      rw [List.foldlM_cons, List.foldlM_cons, hx]
      exact congrArg _ (funext (ih hxs))

theorem mapM_congr {α β : Type} {f g : α → Outcome EngineError β} {xs : List α}
    (h : ∀ x ∈ xs, f x = g x) : xs.mapM f = xs.mapM g := by
  induction xs with
  | nil => rfl
  | cons x xs ih =>
      obtain ⟨hx, hxs⟩ := List.forall_mem_cons.1 h
      rw [List.mapM_cons, List.mapM_cons, hx, ih hxs]

theorem dot_congr {start : Binary32} {length : Nat}
    {left left' right right' : Nat → Outcome EngineError Binary32}
    (hleft : ∀ p < length, left' p = left p) (hright : ∀ p < length, right' p = right p) :
    dot start length left' right' = dot start length left right := by
  apply foldlM_congr
  intro p hp total
  rw [List.mem_range] at hp
  rw [hleft p hp, hright p hp]

/-- Factors that are the same have the same entries of their products. -/
theorem Same.productEntry_eq {a a' b b' : Factor} (hA : a.Same a') (hB : b.Same b')
    (hdepth : a.columns = b.rows) (alpha : Binary32) {q r i j : Nat} (hq : q < volume a.batch)
    (hr : r < volume b.batch) (hi : i < a.rows) (hj : j < b.columns) :
    a'.productEntry b' alpha q r i j = a.productEntry b alpha q r i j := by
  rw [productEntry, productEntry, ← hA.columns_eq]
  apply congrArg (· >>= fun total => pure (alpha * total))
  apply dot_congr
  · intro p hp
    rw [hA.entry_eq _ i p hq hi hp]
  · intro p hp
    rw [hB.entry_eq _ p j hr (hdepth ▸ hp) hj]

theorem Periodic.productEntry_eq {a b : Factor} (hA : a.Periodic) (hB : b.Periodic)
    (alpha : Binary32) (q r i j : Nat) :
    a.productEntry b alpha (wrap q) (wrap r) i j = a.productEntry b alpha q r i j := by
  simp only [productEntry, hA q, hB r]

/-- The number of the matrix of a batch that belongs to an index of the common batch. -/
def matrixAt (own batch : List Nat) (index : Nat) : Nat :=
  number (project (digits batch index) own) (places own)

section Batch

variable {own other batch : List Nat} {index : Nat} (h : broadcastSizes own other = some batch)
  (hindex : index < volume batch)
include h hindex

theorem matrixAt_lt : matrixAt own batch index < volume own :=
  number_lt (inRange_project h (inRange_digits (zero_notMem_of_lt_volume hindex) index)).2

theorem sourceOffset_eq_matrixAt : (sourceOffset (digits batch index) own : Outcome EngineError Nat) =
    .ok (wrap (matrixAt own batch index)) := by
  have hlength := (inRange_project h (inRange_digits (zero_notMem_of_lt_volume hindex) index)).1
  rw [sourceOffset, if_neg (Nat.not_lt.2 hlength), offset_strides]
  rfl

end Batch

/-- The entries of a product are computed from the matrices that belong to the indices of the common
batch. -/
theorem productEntries_eq {a b : Factor} (hA : a.Periodic) (hB : b.Periodic) {batch : List Nat}
    (hbatch : broadcastSizes a.batch b.batch = some batch) (alpha : Binary32) :
    a.productEntries b alpha batch = (List.range (wordVolume batch)).mapM fun index =>
      (List.range a.rows).mapM fun i => (List.range b.columns).mapM fun j =>
        a.productEntry b alpha (matrixAt a.batch batch index) (matrixAt b.batch batch index) i j := by
  apply mapM_congr
  intro index hindex
  have hlt := Nat.lt_of_lt_of_le (List.mem_range.1 hindex) (wordVolume_le batch)
  rw [coordinates_eq_ok hlt]
  change (do
    let q ← sourceOffset (digits batch index) a.batch
    let r ← sourceOffset (digits batch index) b.batch
    (List.range a.rows).mapM fun i =>
      (List.range b.columns).mapM fun j => a.productEntry b alpha q r i j) = _
  rw [sourceOffset_eq_matrixAt hbatch hlt,
    sourceOffset_eq_matrixAt ((broadcastSizes_comm _ _).trans hbatch) hlt]
  change ((List.range a.rows).mapM fun i => (List.range b.columns).mapM fun j =>
    a.productEntry b alpha (wrap _) (wrap _) i j) = _
  simp only [hA.productEntry_eq hB]

/-- Factors that are the same have the same products. -/
theorem Same.productEntries_eq {a a' b b' : Factor} (hA : a.Same a') (hB : b.Same b')
    (hperiodicA : a.Periodic) (hperiodicB : b.Periodic) (hperiodicA' : a'.Periodic)
    (hperiodicB' : b'.Periodic) (hdepth : a.columns = b.rows) (alpha : Binary32) {batch : List Nat}
    (hbatch : broadcastSizes a.batch b.batch = some batch) :
    a'.productEntries b' alpha batch = a.productEntries b alpha batch := by
  have hbatch' : broadcastSizes a'.batch b'.batch = some batch := by
    rwa [← hA.batch_eq, ← hB.batch_eq]
  rw [Factor.productEntries_eq hperiodicA hperiodicB hbatch,
    Factor.productEntries_eq hperiodicA' hperiodicB' hbatch', ← hA.rows_eq, ← hB.columns_eq,
    ← hA.batch_eq, ← hB.batch_eq]
  apply mapM_congr
  intro index hindex
  have hlt := Nat.lt_of_lt_of_le (List.mem_range.1 hindex) (wordVolume_le batch)
  apply mapM_congr
  intro i hi
  apply mapM_congr
  intro j hj
  rw [List.mem_range] at hi hj
  exact hA.productEntry_eq hB hdepth alpha (matrixAt_lt hbatch hlt)
    (matrixAt_lt ((broadcastSizes_comm _ _).trans hbatch) hlt) hi hj

end Factor

/-- How an operand is read. The transpose flag does not count for a single axis. -/
def factor? (vector : Nat → Nat × Nat) (t : Tensor) (transpose : Bool) : Option Factor := do
  let m ← MatrixSizes.ofSizes vector t.sizes
  match t.elements with
  | .f32 values =>
    if transpose && !decide (t.rank = 1) then
      some ⟨m.batch, m.columns, m.rows, fun q i j => values[wrap (q * m.area + (j * m.columns + i))]?⟩
    else
      some ⟨m.batch, m.rows, m.columns, fun q i j => values[wrap (q * m.area + (i * m.columns + j))]?⟩
  | _ => none

theorem floats_eq_ok_iff {t : Tensor} {values : Array Binary32} :
    t.floats = .ok values ↔ t.elements = .f32 values := by
  rw [floats]
  split
  · next heq => simp [heq]
  · next hne =>
    simp only [failExecution, Outcome.fail_ne_ok, false_iff]
    exact hne values

/-- Only 32-bit numbers are read as a factor. -/
theorem exists_floats_of_factor? {vector : Nat → Nat × Nat} {t : Tensor} {transpose : Bool}
    {a : Factor} (h : t.factor? vector transpose = some a) :
    ∃ values, t.elements = .f32 values := by
  obtain ⟨m, -, h⟩ := Option.bind_eq_some_iff.1 h
  split at h
  · next values heq => exact ⟨values, heq⟩
  · cases h

theorem periodic_of_factor? {vector : Nat → Nat × Nat} {t : Tensor} {transpose : Bool} {a : Factor}
    (h : t.factor? vector transpose = some a) : a.Periodic := by
  obtain ⟨m, -, h⟩ := Option.bind_eq_some_iff.1 h
  split at h
  · split at h <;>
    · obtain rfl := Option.some.inj h
      intro q i j
      simp only [wrap_wrap_mul_add]
  · cases h

/-- A product is made from the factors that its operands are read as. -/
theorem gemm_eq_ok_iff {lhs rhs t : Tensor} {spec : GemmSpec} :
    lhs.gemm rhs spec = .ok t ↔ ∃ a b batch entries,
      lhs.factor? (fun k => (1, k)) spec.transposeA = some a ∧
      rhs.factor? (fun k => (k, 1)) spec.transposeB = some b ∧ a.columns = b.rows ∧
      broadcastSizes a.batch b.batch = some batch ∧
      a.productEntries b spec.alpha batch = .ok entries ∧
      t.sizes = batch ++ (if lhs.rank = 1 then [] else [a.rows]) ++
        (if rhs.rank = 1 then [] else [b.columns]) ∧
      t.elements = .f32 (entries.map List.flatten).flatten.toArray := by
  rcases hleft : MatrixSizes.ofSizes (fun k => (1, k)) lhs.sizes with _ | left
  · simp [gemm, factor?, hleft, failUnimplemented]
  rcases hright : MatrixSizes.ofSizes (fun k => (k, 1)) rhs.sizes with _ | right
  · simp [gemm, factor?, hleft, hright, failUnimplemented]
  by_cases hfloatsA : ∃ values, lhs.elements = .f32 values
  · obtain ⟨valuesA, hA⟩ := hfloatsA
    by_cases hfloatsB : ∃ values, rhs.elements = .f32 values
    · obtain ⟨valuesB, hB⟩ := hfloatsB
      -- the transpose flags decide how both operands are read
      rcases hflagA : spec.transposeA && !decide (lhs.rank = 1) with _ | _ <;>
      rcases hflagB : spec.transposeB && !decide (rhs.rank = 1) with _ | _ <;>
      · simp only [gemm, factor?, floats, broadcast, hleft, hright, hflagA, hflagB, hA, hB, if_true,
          Bool.false_eq_true, if_false, Option.bind_eq_bind, Option.bind_some, Option.some.injEq,
          Outcome.bind_eq_ok_iff, Except.ok.injEq, exists_and_left, exists_eq_left',
          Factor.productEntries, Factor.productEntry, wrap_wrap_add]
        split
        · next hne => simp [hne, failExecution, Outcome.bind_eq_ok_iff]
        · next heq =>
          simp only [not_not.1 heq, true_and, ofFloats, new_eq_ok_iff, Outcome.bind_eq_ok_iff,
            Outcome.ofOptionOr_eq_ok_iff]
    · constructor
      · intro h
        simp only [gemm, hleft, hright, Outcome.bind_eq_ok_iff, floats_eq_ok_iff] at h
        obtain ⟨-, -, values, hvalues, -⟩ := h
        exact absurd ⟨values, hvalues⟩ hfloatsB
      · rintro ⟨a, b, batch, entries, -, hb, -⟩
        exact absurd (exists_floats_of_factor? hb) hfloatsB
  · constructor
    · intro h
      simp only [gemm, hleft, hright, Outcome.bind_eq_ok_iff, floats_eq_ok_iff] at h
      obtain ⟨values, hvalues, -⟩ := h
      exact absurd ⟨values, hvalues⟩ hfloatsA
    · rintro ⟨a, b, batch, entries, ha, -⟩
      exact absurd (exists_floats_of_factor? ha) hfloatsA

/-- Operands that are read as the same factors have the same products. -/
theorem gemm_of_same {lhs lhs' rhs rhs' t : Tensor} {spec spec' : GemmSpec}
    (h : lhs.gemm rhs spec = .ok t)
    (hA : ∀ a, lhs.factor? (fun k => (1, k)) spec.transposeA = some a →
      ∃ a', lhs'.factor? (fun k => (1, k)) spec'.transposeA = some a' ∧ a.Same a')
    (hB : ∀ b, rhs.factor? (fun k => (k, 1)) spec.transposeB = some b →
      ∃ b', rhs'.factor? (fun k => (k, 1)) spec'.transposeB = some b' ∧ b.Same b')
    (hrankA : lhs'.rank = lhs.rank) (hrankB : rhs'.rank = rhs.rank)
    (halpha : spec'.alpha = spec.alpha) : lhs'.gemm rhs' spec' = .ok t := by
  obtain ⟨a, b, batch, entries, ha, hb, hdepth, hbatch, hentries, hsizes, helements⟩ :=
    gemm_eq_ok_iff.1 h
  obtain ⟨a', ha', hsameA⟩ := hA a ha
  obtain ⟨b', hb', hsameB⟩ := hB b hb
  have hsame := hsameA.productEntries_eq hsameB (periodic_of_factor? ha) (periodic_of_factor? hb)
    (periodic_of_factor? ha') (periodic_of_factor? hb') hdepth spec.alpha hbatch
  rw [gemm_eq_ok_iff]
  refine ⟨a', b', batch, entries, ha', hb', ?_, ?_, ?_, ?_, helements⟩
  · rw [← hsameA.columns_eq, ← hsameB.rows_eq, hdepth]
  · rw [← hsameA.batch_eq, ← hsameB.batch_eq, hbatch]
  · rw [halpha, hsame, hentries]
  · rw [hrankA, hrankB, ← hsameA.rows_eq, ← hsameB.columns_eq, hsizes]

theorem ofSizes_append_pair (vector : Nat → Nat × Nat) (batch : List Nat) (rows columns : Nat) :
    MatrixSizes.ofSizes vector (batch ++ [rows, columns]) = some ⟨batch, rows, columns⟩ := by
  induction batch with
  | nil => rfl
  | cons size batch ih =>
      rcases batch with _ | ⟨next, _ | ⟨third, batch⟩⟩
      · rfl
      · rfl
      · have hsizes : size :: next :: third :: batch ++ [rows, columns] =
            size :: (next :: third :: batch ++ [rows, columns]) := rfl
        rw [hsizes, MatrixSizes.ofSizes, ih, Option.map_some]
        · simp
        · simp

/-- An operand with its last two axes swapped is read as the operand with the transpose flag. -/
theorem factor?_permute (vector : Nat → Nat × Nat) {t t' : Tensor} {batch : List Nat}
    {rows columns : Nat} {values values' : Array Binary32} (ht : t.WellFormed)
    (hsizes : t.sizes = batch ++ [rows, columns]) (helements : t.elements = .f32 values)
    (hsizes' : t'.sizes = batch ++ [columns, rows]) (helements' : t'.elements = .f32 values')
    (htransposed : TransposedIn (volume batch) rows columns values values') :
    ∃ a a', t.factor? vector true = some a ∧ t'.factor? vector false = some a' ∧ a.Same a' := by
  have hrank : ¬ t.rank = 1 := by simp [rank, hsizes]
  let a : Factor :=
    ⟨batch, columns, rows, fun q i j => values[wrap (q * (rows * columns) + (j * columns + i))]?⟩
  let a' : Factor :=
    ⟨batch, columns, rows, fun q i j => values'[wrap (q * (columns * rows) + (i * rows + j))]?⟩
  refine ⟨a, a', ?_, ?_, rfl, rfl, rfl, ?_⟩
  · simp [factor?, hsizes, helements, ofSizes_append_pair, hrank, MatrixSizes.area, a]
  · simp [factor?, hsizes', helements', ofSizes_append_pair, MatrixSizes.area, a']
  · intro q i j hq hi hj
    have hword : volume batch * (rows * columns) < UInt64.size := by
      have hvolume := ht.volume_lt
      rwa [hsizes, volume_append, volume_pair] at hvolume
    -- both numbers are below the number of elements
    have hplace := (matrix_index_lt_iff (q := q) hj hi).2 hq
    have hplace' := (matrix_index_lt_iff (q := q) hi hj).2 hq
    simp only [a, a']
    rw [wrap_of_lt (Nat.lt_trans hplace hword),
      wrap_of_lt (Nat.lt_trans hplace' (Nat.mul_comm rows _ ▸ hword))]
    exact (htransposed q i j hq hi hj).symm

/-- Two axes or more are a batch of matrices. -/
theorem exists_append_pair {sizes : List Nat} (h : 2 ≤ sizes.length) :
    ∃ batch rows columns, sizes = batch ++ [rows, columns] := by
  have hlength : (sizes.drop (sizes.length - 2)).length = 2 := by
    rw [List.length_drop]
    omega
  obtain ⟨rows, columns, hdrop⟩ := List.length_eq_two.1 hlength
  refine ⟨sizes.take (sizes.length - 2), rows, columns, ?_⟩
  rw [← hdrop, List.take_append_drop]

theorem exists_sizes_of_swapLastTwo? {t : Tensor} {order : List Nat}
    (h : swapLastTwo? t.rank = some order) :
    ∃ batch rows columns, t.sizes = batch ++ [rows, columns] := by
  apply exists_append_pair
  apply Nat.le_of_not_lt
  intro hlt
  rw [swapLastTwo?, rank, if_neg (Nat.not_le_of_lt hlt)] at h
  cases h

/-- An operand can be permuted in front of a product instead of being transposed in it. -/
theorem exists_permute {t : Tensor} {values : Array Binary32} {order : List Nat} (ht : t.WellFormed)
    (helements : t.elements = .f32 values) (horder : swapLastTwo? t.rank = some order) :
    ∃ t', t.permute order = .ok t' ∧ t'.rank = t.rank ∧
      ∀ vector a, t.factor? vector true = some a →
        ∃ a', t'.factor? vector false = some a' ∧ a.Same a' := by
  obtain ⟨batch, rows, columns, hsizes⟩ := exists_sizes_of_swapLastTwo? horder
  obtain ⟨t', values', hpermute, hsizes', helements', htransposed⟩ :=
    permute_swapLastTwo ht hsizes helements horder
  refine ⟨t', hpermute, by simp [rank, hsizes, hsizes'], ?_⟩
  intro vector a ha
  obtain ⟨b, b', hb, hb', hsame⟩ :=
    factor?_permute vector ht hsizes helements hsizes' helements' htransposed
  obtain rfl := Option.some.inj (ha.symm.trans hb)
  exact ⟨b', hb', hsame⟩

end Tensor

end TensorLowering
