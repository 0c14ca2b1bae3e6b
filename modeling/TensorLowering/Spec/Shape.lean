/-! # Shapes

A shape lists the extent of each axis. An extent is a number, or a symbol where it is only known at
run time. Axes are counted from zero at the outermost one; a negative axis counts from the end.

Sizes are words of 64 bits. Where a product or a sum of sizes is too large for a word, it wraps
around, as in an optimised build, unless it is checked: `wordVolume` wraps, and `checkedVolume`
refuses. -/

namespace TensorLowering

/-- The extent of one axis. -/
inductive Extent where
  | fixed (size : Nat)
  | symbolic (symbol : String)
  deriving DecidableEq, Repr

namespace Extent

/-- The size, when it is a number. -/
def size? : Extent → Option Nat
  | fixed size => some size
  | symbolic _ => none

/-- True when the size is a number. -/
def isFixed : Extent → Bool
  | fixed _ => true
  | symbolic _ => false

/-- A number, or a question mark with the symbol. -/
def text : Extent → String
  | fixed size => toString size
  | symbolic symbol => "?" ++ symbol

end Extent

/-- What a word of 64 bits keeps of a number. -/
def wrap (n : Nat) : Nat := n % UInt64.size

/-- The number of elements that sizes stand for: their product. -/
def volume : List Nat → Nat
  | [] => 1
  | size :: rest => size * volume rest

/-- The product of sizes in words, where every step wraps around. -/
def wordVolume : List Nat → Nat
  | [] => 1
  | size :: rest => wrap (size * wordVolume rest)

/-- The product of sizes, as long as every partial product fits a 64-bit word. -/
def checkedVolume (sizes : List Nat) : Option Nat :=
  sizes.foldlM (fun product size => if product * size < UInt64.size then some (product * size) else none) 1

section Words

theorem wrap_lt (n : Nat) : wrap n < UInt64.size := Nat.mod_lt _ (by decide)

theorem wrap_le (n : Nat) : wrap n ≤ n := Nat.mod_le _ _

theorem wrap_of_lt {n : Nat} (h : n < UInt64.size) : wrap n = n := Nat.mod_eq_of_lt h

theorem wrap_eq_self_iff {n : Nat} : wrap n = n ↔ n < UInt64.size :=
  ⟨fun h => h ▸ wrap_lt n, wrap_of_lt⟩

@[simp] theorem wrap_wrap (n : Nat) : wrap (wrap n) = wrap n := Nat.mod_mod _ _

@[simp] theorem wrap_mul_wrap (m n : Nat) : wrap (m * wrap n) = wrap (m * n) := by
  simp [wrap, Nat.mul_mod]

@[simp] theorem wrap_wrap_mul (m n : Nat) : wrap (wrap m * n) = wrap (m * n) := by
  simp [wrap, Nat.mul_mod]

@[simp] theorem wrap_add_wrap (m n : Nat) : wrap (m + wrap n) = wrap (m + n) := by
  simp [wrap]

@[simp] theorem wrap_wrap_add (m n : Nat) : wrap (wrap m + n) = wrap (m + n) := by
  simp [wrap]

theorem wrap_wrap_mul_add (m n k : Nat) : wrap (wrap m * n + k) = wrap (m * n + k) := by
  rw [← wrap_wrap_add, wrap_wrap_mul, wrap_wrap_add]

/-- It does not matter when a product of sizes wraps around. -/
theorem wordVolume_eq (sizes : List Nat) : wordVolume sizes = wrap (volume sizes) := by
  induction sizes with
  | nil => rfl
  | cons size rest ih => rw [wordVolume, volume, ih, wrap_mul_wrap]

theorem wordVolume_le (sizes : List Nat) : wordVolume sizes ≤ volume sizes :=
  wordVolume_eq sizes ▸ wrap_le _

theorem wordVolume_lt (sizes : List Nat) : wordVolume sizes < UInt64.size :=
  wordVolume_eq sizes ▸ wrap_lt _

/-- The product in words is the volume exactly when a word holds it. -/
theorem wordVolume_eq_volume_iff {sizes : List Nat} :
    wordVolume sizes = volume sizes ↔ volume sizes < UInt64.size := by
  rw [wordVolume_eq, wrap_eq_self_iff]

end Words

/-- The extents of a tensor, outermost axis first. -/
structure Shape where
  extents : List Extent
  deriving DecidableEq, Repr

namespace Shape

/-- The shape with the given sizes. -/
def ofSizes (sizes : List Nat) : Shape := ⟨sizes.map .fixed⟩

/-- The shape with the given sizes; the axis `i` without one gets the symbol `di`. -/
def ofSizes? (sizes : List (Option Nat)) : Shape :=
  ⟨sizes.zipIdx.map fun (size, axis) =>
    match size with
    | some n => .fixed n
    | none => .symbolic ("d" ++ toString axis)⟩

/-- The number of axes. -/
def rank (s : Shape) : Nat := s.extents.length

/-- True when some extent is a symbol. -/
def isDynamic (s : Shape) : Bool := s.extents.any fun e => !e.isFixed

/-- The sizes, when all extents are numbers. -/
def sizes? (s : Shape) : Option (List Nat) := s.extents.mapM Extent.size?

/-- The number of elements, when all extents are numbers and no partial product is too large. -/
def elementCount? (s : Shape) : Option Nat := s.sizes?.bind checkedVolume

/-- The last `n` extents, when there are that many axes. -/
def trailing? (s : Shape) (n : Nat) : Option (List Extent) :=
  if n ≤ s.rank then some (s.extents.drop (s.rank - n)) else none

/-- The extents in square brackets, separated by commas. -/
def text (s : Shape) : String := "[" ++ String.intercalate "," (s.extents.map Extent.text) ++ "]"

@[simp] theorem rank_ofSizes (sizes : List Nat) : (ofSizes sizes).rank = sizes.length := by
  simp [rank, ofSizes]

@[simp] theorem sizes?_ofSizes (sizes : List Nat) : (ofSizes sizes).sizes? = some sizes := by
  induction sizes with
  | nil => rfl
  | cons size rest ih =>
    simp only [ofSizes, sizes?] at ih ⊢
    simp [List.mapM_cons, Extent.size?, ih]

end Shape

/-- The position of an axis among `rank` many, if it is one of them. -/
def axisPosition? (axis : Int) (rank : Nat) : Option Nat :=
  let position := if axis < 0 then axis + rank else axis
  if 0 ≤ position ∧ position < rank then some position.toNat else none

/-- Each position once, ascending. -/
def axisSet (positions : List Nat) : List Nat := positions.eraseDups.mergeSort

/-- The axes in their order, the last two swapped; there have to be two. -/
def swapLastTwo? (rank : Nat) : Option (List Nat) :=
  if 2 ≤ rank then some (List.range (rank - 2) ++ [rank - 1, rank - 2]) else none

theorem axisPosition?_lt {axis : Int} {rank position : Nat} (h : axisPosition? axis rank = some position) :
    position < rank := by
  by_cases hneg : axis < 0 <;> simp [axisPosition?, hneg] at h <;> omega

end TensorLowering
