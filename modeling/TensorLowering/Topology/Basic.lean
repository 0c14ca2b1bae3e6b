import TensorLowering.NameMap
import TensorLowering.Primitive.Basic

/-! # Topologies

A topology collects primitives in the order in which they are added, and keeps an index of their
positions. No two have the same identifier; an input may name a primitive that is only added later.

## Main statements

* `Topology.position?_eq_some_iff`: the index leads from an identifier to where it stands. -/

namespace TensorLowering

/-- What can be wrong with a collection of primitives. -/
inductive TopologyError where
  /-- The identifier is taken. -/
  | duplicatePrimitive (id : String)
  /-- An input names no primitive. -/
  | missingInput (primitive input : String)
  /-- Some primitives wait for each other, directly or not. -/
  | cycle (remaining : Nat)
  deriving DecidableEq, Repr

/-- The text of the error. -/
def TopologyError.message : TopologyError → String
  | duplicatePrimitive id => s!"primitive with id {id} already exists"
  | missingInput primitive input =>
    s!"input {input} of primitive {primitive} never resolved to a primitive"
  | cycle remaining => s!"topology contains a dependency cycle ({remaining} primitives unscheduled)"

/-- Primitives in insertion order, with an index that leads from each identifier to the position of
its primitive. The index holds nothing else, so no two primitives share an identifier. -/
structure Topology where
  primitives : List Primitive
  index : NameMap Nat
  indexed : ∀ id position,
    index.get? id = some position ↔ (primitives.map Primitive.id)[position]? = some id
  deriving DecidableEq

namespace Topology

/-- The topology without primitives. -/
def empty : Topology := ⟨[], .empty, by simp⟩

instance : Inhabited Topology := ⟨empty⟩

/-- The number of primitives. -/
def size (t : Topology) : Nat := t.primitives.length

/-- The identifiers in insertion order. -/
def ids (t : Topology) : List String := t.primitives.map Primitive.id

/-- The position of the primitive with an identifier. -/
def position? (t : Topology) (id : String) : Option Nat := t.index.get? id

/-- The primitive with an identifier. -/
def get? (t : Topology) (id : String) : Option Primitive := do
  let position ← t.position? id
  t.primitives[position]?

/-- True when some primitive has the identifier. -/
def contains (t : Topology) (id : String) : Bool := t.index.contains id

/-- The index finds an identifier where it stands. -/
theorem position?_eq_some_iff {t : Topology} {id : String} {position : Nat} :
    t.position? id = some position ↔ t.ids[position]? = some id :=
  t.indexed id position

/-- No two primitives share an identifier: the index would lead to both positions. -/
theorem distinct (t : Topology) : (t.primitives.map Primitive.id).Nodup := by
  refine List.pairwise_iff_getElem.2 fun i j hi hj hlt heq => ?_
  have hleft := (t.indexed _ i).2 (List.getElem?_eq_getElem hi)
  have hright := (t.indexed _ j).2 (List.getElem?_eq_getElem hj)
  rw [heq, hright, Option.some.injEq] at hleft
  omega

theorem contains_iff {t : Topology} {id : String} : t.contains id = true ↔ id ∈ t.ids := by
  rw [contains, NameMap.contains, Option.isSome_iff_exists, List.mem_iff_getElem?]
  exact exists_congr fun position => t.indexed id position

/-- A new identifier is put into the index behind the primitives that are there. -/
private theorem indexed_insert (t : Topology) {p : Primitive} (hp : t.contains p.id = false)
    (id : String) (position : Nat) :
    (t.index.insert p.id t.size).get? id = some position ↔
      ((t.primitives ++ [p]).map Primitive.id)[position]? = some id := by
  have hnew : p.id ∉ t.ids := fun h => by simp [contains_iff.2 h] at hp
  have hold : t.index.get? id = some position ↔ t.ids[position]? = some id := t.indexed id position
  have hlength : t.ids.length = t.size := List.length_map _
  rw [NameMap.get?_insert, List.map_append, List.map_singleton]
  change _ ↔ (t.ids ++ [p.id])[position]? = some id
  rw [List.getElem?_append, hlength]
  by_cases hid : id = p.id
  · -- the new identifier stands at the end and nowhere else
    subst hid
    have hother : t.ids[position]? ≠ some p.id := fun h => hnew (List.mem_of_getElem? h)
    rw [if_pos rfl, Option.some.injEq]
    split
    · next hlt => exact iff_of_false (Nat.ne_of_gt hlt) hother
    · rw [List.getElem?_singleton]
      split <;> simp <;> omega
  · -- an old identifier stands where it stood
    rw [if_neg hid, hold]
    split
    · rfl
    · next hge =>
      rw [List.getElem?_eq_none (by omega), List.getElem?_singleton]
      split
      · simpa using Ne.symm hid
      · simp

/-- Adds a primitive at the end, and its identifier, which has to be new, to the index. -/
def add (t : Topology) (p : Primitive) : Except TopologyError Topology :=
  if h : t.contains p.id = true then .error (.duplicatePrimitive p.id)
  else .ok ⟨t.primitives ++ [p], t.index.insert p.id t.size, t.indexed_insert (by simpa using h)⟩

/-- The inputs that name no primitive, each with the primitive that reads it, in order. -/
def unresolved (t : Topology) : List (Primitive × Source) :=
  t.primitives.flatMap fun p => (p.inputs.filter fun s => !t.contains s.id).map (p, ·)

/-- Checks that every input names a primitive; the first that does not is reported. -/
def validate (t : Topology) : Except TopologyError Unit :=
  match t.unresolved with
  | [] => .ok ()
  | (p, s) :: _ => .error (.missingInput p.id s.id)

end Topology

end TensorLowering
