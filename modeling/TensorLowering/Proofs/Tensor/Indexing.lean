import TensorLowering.Tensor.Indexing

/-!
# Row-major numbering

The number of coordinates is the sum of what each of them counts for. Strides and offsets are what
words keep of these counts and of this number, so they are the same where the number fits in a word.
The coordinates of a number lead back to it, and coordinates and counts of joined size lists are
joined in turn. A number in a batch of matrices is a matrix, a row and a column.

## Main statements

* `Indexing.offset_strides`: an offset is what a word keeps of a number.
* `Indexing.number_digits`: the coordinates of a number stand for it.
-/

namespace TensorLowering

theorem volume_append (xs ys : List Nat) : volume (xs ++ ys) = volume xs * volume ys := by
  induction xs with
  | nil => rw [List.nil_append, volume, Nat.one_mul]
  | cons x xs ih => rw [List.cons_append, volume, volume, ih, Nat.mul_assoc]

theorem volume_append_singleton (xs : List Nat) (y : Nat) : volume (xs ++ [y]) = volume xs * y := by
  rw [volume_append, volume, volume, Nat.mul_one]

theorem volume_pair (x y : Nat) : volume [x, y] = x * y := by
  rw [volume, volume, volume, Nat.mul_one]

namespace Indexing

/-- What a coordinate of each axis counts for: the volume of the axes behind it. -/
def places : List Nat → List Nat
  | [] => []
  | _ :: rest => volume rest :: places rest

/-- The sum of what the coordinates count for. -/
def number : List Nat → List Nat → Nat
  | coord :: coords, place :: places => coord * place + number coords places
  | _, _ => 0

@[simp] theorem length_places (sizes : List Nat) : (places sizes).length = sizes.length := by
  induction sizes with
  | nil => rfl
  | cons size rest ih => simp [places, ih]

section Words

/-- Strides are what words keep of what the coordinates count for. -/
theorem strides_eq_map_wrap (sizes : List Nat) : strides sizes = (places sizes).map wrap := by
  induction sizes with
  | nil => rfl
  | cons size rest ih => rw [strides, places, List.map_cons, ih, wordVolume_eq]

/-- It does not matter when an offset wraps around. -/
theorem offset_map_wrap (coords steps : List Nat) :
    offset coords (steps.map wrap) = wrap (number coords steps) := by
  induction coords generalizing steps with
  | nil => rfl
  | cons coord coords ih =>
      cases steps with
      | nil => rfl
      | cons step steps =>
          rw [List.map_cons, offset, number, ih, wrap_add_wrap, ← wrap_wrap_add, wrap_mul_wrap,
            wrap_wrap_add]

/-- An offset is what a word keeps of a number. -/
theorem offset_strides (coords sizes : List Nat) :
    offset coords (strides sizes) = wrap (number coords (places sizes)) := by
  rw [strides_eq_map_wrap, offset_map_wrap]

end Words

theorem places_append (xs ys : List Nat) :
    places (xs ++ ys) = (places xs).map (· * volume ys) ++ places ys := by
  induction xs with
  | nil => rfl
  | cons x xs ih =>
      rw [List.cons_append, places, places, ih, volume_append]
      rfl

theorem digits_append (xs ys : List Nat) (index : Nat) :
    digits (xs ++ ys) index = digits xs (index / volume ys) ++ digits ys index := by
  induction xs with
  | nil => rfl
  | cons x xs ih =>
      rw [List.cons_append, digits, digits, ih, volume_append, List.cons_append,
        Nat.div_div_eq_div_mul, Nat.mul_comm (volume xs)]

theorem number_append {as ss : List Nat} (h : as.length = ss.length) (bs ts : List Nat) :
    number (as ++ bs) (ss ++ ts) = number as ss + number bs ts := by
  induction as generalizing ss with
  | nil =>
      obtain rfl : ss = [] := List.length_eq_zero_iff.1 h.symm
      simp [number]
  | cons a as ih =>
      cases ss with
      | nil => cases h
      | cons s ss =>
          rw [List.cons_append, List.cons_append, number, number, ih (Nat.succ.inj h),
            Nat.add_assoc]

theorem number_map_mul (as ss : List Nat) (k : Nat) :
    number as (ss.map (· * k)) = number as ss * k := by
  induction as generalizing ss with
  | nil => simp [number]
  | cons a as ih =>
      cases ss with
      | nil => simp [number]
      | cons s ss => rw [List.map_cons, number, number, ih, Nat.add_mul, Nat.mul_assoc]

/-- The number of joined coordinates. -/
theorem number_places_append {cs xs : List Nat} (h : cs.length = xs.length) (ds ys : List Nat) :
    number (cs ++ ds) (places (xs ++ ys)) =
      number cs (places xs) * volume ys + number ds (places ys) := by
  rw [places_append, number_append (by simpa using h), number_map_mul]

theorem number_append_singleton {cs xs : List Nat} (h : cs.length = xs.length) (d y : Nat) :
    number (cs ++ [d]) (places (xs ++ [y])) = number cs (places xs) * y + d := by
  rw [number_places_append h]
  simp [places, number, volume]

/-- The coordinates of a number stand for the number, up to multiples of the volume. -/
theorem number_digits (sizes : List Nat) (index : Nat) :
    number (digits sizes index) (places sizes) = index % volume sizes := by
  induction sizes with
  | nil => simp [number, digits, volume, Nat.mod_one]
  | cons size rest ih =>
      calc
        number (digits (size :: rest) index) (places (size :: rest))
            = index / volume rest % size * volume rest + index % volume rest := by
              rw [digits, places, number, ih]
        _ = index % (volume rest * size) := by rw [Nat.mod_mul]; ac_rfl
        _ = index % volume (size :: rest) := by rw [volume, Nat.mul_comm]

section Rows

variable {columns i p : Nat}

/-- The row of a number that is made from a row and a column. -/
theorem row_index_div (hp : p < columns) : (i * columns + p) / columns = i := by
  rw [Nat.mul_comm, Nat.mul_add_div (by omega), Nat.div_eq_of_lt hp, Nat.add_zero]

/-- The column of a number that is made from a row and a column. -/
theorem row_index_mod (hp : p < columns) : (i * columns + p) % columns = p := by
  rw [Nat.mul_comm, Nat.mul_add_mod, Nat.mod_eq_of_lt hp]

end Rows

/-- The place of a column of a row is in the matrix. -/
theorem row_index_lt {rows columns i p : Nat} (hi : i < rows) (hp : p < columns) :
    i * columns + p < rows * columns := by
  calc
    i * columns + p < i * columns + columns := by omega
    _ = (i + 1) * columns := by rw [Nat.add_mul, Nat.one_mul]
    _ ≤ rows * columns := Nat.mul_le_mul_right _ hi

/-- Numbers made from a row and a column are ordered by their rows, and in one row by their columns. -/
theorem row_index_lt_row_index_iff {columns i j p q : Nat} (hp : p < columns) (hq : q < columns) :
    i * columns + p < j * columns + q ↔ i < j ∨ i = j ∧ p < q := by
  rcases Nat.lt_trichotomy i j with hij | rfl | hji
  · have hlt := row_index_lt hij hp
    simp only [hij, true_or, iff_true]
    omega
  · simp
  · have hlt := row_index_lt hji hq
    have hne : ¬ (i < j ∨ i = j ∧ p < q) := by omega
    simp only [hne, iff_false]
    omega

/-- A number in a batch of matrices is a matrix, a row and a column. -/
theorem exists_matrix_index {rows columns count index : Nat}
    (h : index < count * (rows * columns)) :
    ∃ q i p, q < count ∧ i < rows ∧ p < columns ∧
      index = q * (rows * columns) + (i * columns + p) := by
  have hcolumns : 0 < columns := by
    apply Nat.pos_of_ne_zero
    rintro rfl
    simp at h
  have harea : 0 < rows * columns := Nat.pos_of_mul_pos_left (Nat.lt_of_le_of_lt (Nat.zero_le _) h)
  refine ⟨index / (rows * columns), index % (rows * columns) / columns, index % columns,
    Nat.div_lt_of_lt_mul (by rwa [Nat.mul_comm]), ?_, Nat.mod_lt _ hcolumns, ?_⟩
  · rw [Nat.div_lt_iff_lt_mul hcolumns]
    exact Nat.mod_lt _ harea
  · have hinner : index % (rows * columns) % columns = index % columns :=
      Nat.mod_mod_of_dvd _ (Nat.dvd_mul_left _ _)
    rw [← hinner, Nat.mul_comm (_ / columns), Nat.div_add_mod, Nat.mul_comm, Nat.div_add_mod]

/-- Whether a number is in a batch of matrices depends on its matrix alone. -/
theorem matrix_index_lt_iff {rows columns q i p count : Nat} (hi : i < rows) (hp : p < columns) :
    q * (rows * columns) + (i * columns + p) < count * (rows * columns) ↔ q < count := by
  have hinner := row_index_lt hi hp
  constructor
  · intro h
    apply Nat.lt_of_not_le
    intro hge
    have := Nat.mul_le_mul_right (rows * columns) hge
    omega
  · intro h
    have := Nat.mul_le_mul_right (rows * columns) (Nat.succ_le_of_lt h)
    rw [Nat.succ_mul] at this
    omega

/-- The last two coordinates of a number, and the number of the matrix that it is in. -/
theorem digits_matrix (batch : List Nat) {rows columns q i p : Nat} (hi : i < rows)
    (hp : p < columns) :
    digits (batch ++ [rows, columns]) (q * (rows * columns) + (i * columns + p)) =
      digits batch q ++ [i, p] := by
  have hinner := row_index_lt hi hp
  have hassoc : q * (rows * columns) + (i * columns + p) = (q * rows + i) * columns + p := by
    rw [Nat.add_mul]
    ac_rfl
  have hrow : (q * (rows * columns) + (i * columns + p)) / columns % rows = i := by
    rw [hassoc, row_index_div hp, row_index_mod hi]
  have hcolumn : (q * (rows * columns) + (i * columns + p)) % columns = p := by
    rw [hassoc, row_index_mod hp]
  rw [digits_append, volume_pair, row_index_div hinner]
  simp only [digits, volume, Nat.mul_one, Nat.div_one, hrow, hcolumn]

end Indexing

end TensorLowering
