import TensorLowering.Fault
import TensorLowering.Spec.Shape

/-! # Row-major indexing and broadcasting

Elements are numbered in row-major order: the last coordinate runs fastest. `coordinates` and
`offset` lead from numbers to coordinates and back. The strides are the products that arise when the
sizes are multiplied from the last axis on, and the coordinates of a number are the remainders that
arise when it is divided by them in the same order. Strides and offsets are words, which wrap around.

Two size lists broadcast when, aligned at the last axis, the sizes of each axis are equal or one of
them is one. -/

namespace TensorLowering.Indexing

/-- One step of the multiplication: the product so far belongs to the axis. -/
def multiplyAxis (size : Nat) : Nat × List Nat → Nat × List Nat
  | (product, steps) => (wrap (product * size), product :: steps)

/-- The product of the sizes, multiplied from the last axis on, and for every axis the product of the
sizes behind it. -/
def runningProducts (sizes : List Nat) : Nat × List Nat := sizes.foldr multiplyAxis (1, [])

/-- How far one step along each axis moves in the numbering. -/
def strides : List Nat → List Nat
  | [] => []
  | _ :: rest => wordVolume rest :: strides rest

/-- The number of the element at the given coordinates. -/
def offset : List Nat → List Nat → Nat
  | coord :: coords, stride :: strides => wrap (coord * stride + offset coords strides)
  | _, _ => 0

/-- One step of the division: the remainder belongs to the axis. A size of zero has no remainders. -/
def divideAxis {ε : Type} (size : Nat) : Nat × List Nat → Outcome ε (Nat × List Nat)
  | (quotient, coords) =>
    if size = 0 then .abort else .ok (quotient / size, quotient % size :: coords)

/-- What is left of a number that is divided by the sizes from the last axis on, and for every axis the
remainder by its size. -/
def remainders {ε : Type} (sizes : List Nat) (index : Nat) : Outcome ε (Nat × List Nat) :=
  sizes.foldrM divideAxis (index, [])

/-- The coordinates of a number, each the remainder by its size. -/
def digits : List Nat → Nat → List Nat
  | [], _ => []
  | size :: rest, index => index / volume rest % size :: digits rest index

/-- The coordinates of a number; a size of zero has no remainders. -/
def coordinates {ε : Type} (sizes : List Nat) (index : Nat) : Outcome ε (List Nat) :=
  if 0 ∈ sizes then .abort else .ok (digits sizes index)

/-- The common size of two axes. -/
def broadcastExtent (l r : Nat) : Option Nat :=
  if l = r then some l
  else if l = 1 then some r
  else if r = 1 then some l
  else none

/-- The common sizes of two size lists that start with their last axes. -/
def broadcastReversed : List Nat → List Nat → Option (List Nat)
  | [], rs => some rs
  | ls, [] => some ls
  | l :: ls, r :: rs => do
    let extent ← broadcastExtent l r
    let rest ← broadcastReversed ls rs
    pure (extent :: rest)

/-- The common sizes of two size lists, aligned at the last axis; a missing axis counts as one. -/
def broadcastSizes (lhs rhs : List Nat) : Option (List Nat) :=
  (broadcastReversed lhs.reverse rhs.reverse).map List.reverse

/-- The coordinates that a broadcast operand is read at: the axes that it lacks are dropped, and an
axis of size one is read at zero. -/
def project (coords sizes : List Nat) : List Nat :=
  List.zipWith (fun coord size => if size = 1 then 0 else coord)
    (coords.drop (coords.length - sizes.length)) sizes

/-- The number of the element that a broadcast operand is read at. The operand must not have more
axes than there are coordinates. -/
def sourceOffset {ε : Type} (coords sizes : List Nat) : Outcome ε Nat :=
  if coords.length < sizes.length then .abort
  else .ok (offset (project coords sizes) (strides sizes))

@[simp] theorem length_strides (sizes : List Nat) : (strides sizes).length = sizes.length := by
  induction sizes with
  | nil => rfl
  | cons size rest ih => simp [strides, ih]

@[simp] theorem length_digits (sizes : List Nat) (index : Nat) :
    (digits sizes index).length = sizes.length := by
  induction sizes with
  | nil => rfl
  | cons size rest ih => simp [digits, ih]

/-- Multiplying ends with the product in words and finds the strides. -/
theorem runningProducts_eq (sizes : List Nat) :
    runningProducts sizes = (wordVolume sizes, strides sizes) := by
  induction sizes with
  | nil => rfl
  | cons size rest ih =>
      calc
        runningProducts (size :: rest) = multiplyAxis size (runningProducts rest) := rfl
        _ = (wrap (wordVolume rest * size), wordVolume rest :: strides rest) := by rw [ih]; rfl
        _ = (wordVolume (size :: rest), strides (size :: rest)) := by
          rw [wordVolume, strides, Nat.mul_comm]

/-- The divisions find the coordinates, and they are carried out when no size is zero. -/
theorem remainders_eq {ε : Type} (sizes : List Nat) (index : Nat) :
    (remainders sizes index : Outcome ε (Nat × List Nat)) =
      if 0 ∈ sizes then .abort else .ok (index / volume sizes, digits sizes index) := by
  induction sizes with
  | nil => simp [remainders, volume, digits, pure, Except.pure]
  | cons size rest ih =>
      have hstep : (remainders (size :: rest) index : Outcome ε (Nat × List Nat)) =
          remainders rest index >>= divideAxis size :=
        List.foldrM_cons
      rw [hstep, ih]
      by_cases hrest : 0 ∈ rest
      · rw [if_pos hrest, if_pos (List.mem_cons_of_mem _ hrest)]
        rfl
      · by_cases hsize : size = 0
        · rw [if_neg hrest, if_pos (List.mem_cons.2 (.inl hsize.symm))]
          exact if_pos hsize
        · have hall : 0 ∉ size :: rest := by simp [hrest, Ne.symm hsize]
          rw [if_neg hrest, if_neg hall, volume, digits, Nat.mul_comm, ← Nat.div_div_eq_div_mul]
          exact if_neg hsize

/-- Coordinates are the remainders of the divisions. -/
theorem coordinates_eq_map_remainders {ε : Type} (sizes : List Nat) (index : Nat) :
    (coordinates sizes index : Outcome ε (List Nat)) = (remainders sizes index).map Prod.snd := by
  rw [coordinates, remainders_eq]
  split <;> rfl

end TensorLowering.Indexing
