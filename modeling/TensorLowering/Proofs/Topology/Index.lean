import Mathlib.Data.List.Nodup
import TensorLowering.Proofs.NameMap
import TensorLowering.Topology.Basic

/-!
# The index of a topology

A topology finds its primitives through an index that every addition extends by one entry. The index
knows exactly the primitives that are there, each by its position, so it is determined by them: a
topology is its list of primitives.

## Main statements

* `Topology.get?_eq_some_iff`: what is found under an identifier is the one primitive that has it.
* `Topology.eq_of_primitives_eq`: topologies with the same primitives are equal.
* `Topology.add_eq_ok_iff`: a primitive is added, at the end, exactly when its identifier is new.
-/

namespace TensorLowering.Topology

variable {t next : Topology} {p q : Primitive} {id : String}

theorem eq_of_id_eq (hp : p ∈ t.primitives) (hq : q ∈ t.primitives) (h : p.id = q.id) : p = q :=
  List.inj_on_of_nodup_map t.distinct hp hq h

/-- A primitive stands at one position only. -/
theorem eq_of_getElem?_eq {i j : Nat} (hi : t.primitives[i]? = some p)
    (hj : t.primitives[j]? = some p) : i = j :=
  (List.getElem?_inj (List.getElem?_eq_some_iff.1 hi).1 (t.distinct.of_map _)).1 (hi.trans hj.symm)

/-- The index leads to the primitive itself. -/
theorem position?_eq_some {position : Nat} (h : t.position? id = some position) :
    ∃ p, t.primitives[position]? = some p ∧ p.id = id := by
  rw [position?_eq_some_iff, ids, List.getElem?_map, Option.map_eq_some_iff] at h
  exact h

theorem exists_position? (h : id ∈ t.ids) : ∃ position, t.position? id = some position := by
  obtain ⟨position, hposition⟩ := List.mem_iff_getElem?.1 h
  exact ⟨position, position?_eq_some_iff.2 hposition⟩

/-- The primitive with an identifier is the only one that has it. -/
theorem get?_eq_some_iff : t.get? id = some p ↔ p ∈ t.primitives ∧ p.id = id := by
  rw [get?, Option.bind_eq_bind, Option.bind_eq_some_iff]
  constructor
  · rintro ⟨position, hposition, hp⟩
    obtain ⟨q, hq, hid⟩ := position?_eq_some hposition
    obtain rfl := Option.some.inj (hq.symm.trans hp)
    exact ⟨List.mem_of_getElem? hp, hid⟩
  · rintro ⟨hmem, rfl⟩
    obtain ⟨position, hp⟩ := List.mem_iff_getElem?.1 hmem
    exact ⟨position, position?_eq_some_iff.2 (by rw [ids, List.getElem?_map, hp]; rfl), hp⟩

/-- The names in the index are the identifiers of the primitives. -/
theorem mem_names_index_iff : id ∈ t.index.names ↔ id ∈ t.ids := by
  rw [NameMap.mem_names_iff, List.mem_iff_getElem?]
  exact exists_congr fun position => t.indexed id position

theorem eq_of_primitives_eq {t' : Topology} (h : t.primitives = t'.primitives) : t = t' := by
  have hindex : t.index = t'.index := by
    apply NameMap.eq_of_get?_eq
    · intro id
      rw [mem_names_index_iff, mem_names_index_iff, ids, ids, h]
    · intro id _
      ext position
      rw [t.indexed, t'.indexed, h]
  cases t
  cases t'
  cases h
  cases hindex
  rfl

/-- A primitive with a new identifier is put at the end, and its position into the index. -/
theorem exists_add (h : p.id ∉ t.ids) :
    ∃ next, t.add p = .ok next ∧ next.primitives = t.primitives ++ [p] ∧
      next.index = t.index.insert p.id t.size := by
  rw [add, dif_neg (mt contains_iff.1 h)]
  exact ⟨_, rfl, rfl, rfl⟩

/-- A primitive whose identifier is taken is refused. -/
theorem add_of_mem (h : p.id ∈ t.ids) : t.add p = .error (.duplicatePrimitive p.id) :=
  dif_pos (contains_iff.2 h)

theorem add_eq_ok_iff :
    t.add p = .ok next ↔ p.id ∉ t.ids ∧ next.primitives = t.primitives ++ [p] := by
  by_cases h : p.id ∈ t.ids
  · rw [add_of_mem h]
    exact iff_of_false (fun hok => by cases hok) fun hnew => hnew.1 h
  · obtain ⟨added, hadded, hprimitives, -⟩ := exists_add h
    rw [hadded, Except.ok.injEq]
    constructor
    · rintro rfl
      exact ⟨h, hprimitives⟩
    · rintro ⟨-, hnext⟩
      exact eq_of_primitives_eq (hprimitives.trans hnext.symm)

/-- The topology of primitives with distinct identifiers. -/
def ofPrimitives (ps : List Primitive) (h : (ps.map Primitive.id).Nodup) : Topology where
  primitives := ps
  index := .ofList (ps.map Primitive.id).zipIdx
  indexed id position := by
    have hunique : ∀ entry ∈ (ps.map Primitive.id).zipIdx, ∀ other ∈ (ps.map Primitive.id).zipIdx,
        other.1 = entry.1 → other.2 = entry.2 := by
      rintro ⟨a, i⟩ ha ⟨b, j⟩ hb (rfl : b = a)
      rw [List.mem_zipIdx_iff_getElem?] at ha hb
      exact (List.getElem?_inj (List.getElem?_eq_some_iff.1 hb).1 h).1 (hb.trans ha.symm)
    constructor
    · intro hget
      rw [NameMap.get?_ofList, Option.map_eq_some_iff] at hget
      obtain ⟨entry, hentry, rfl⟩ := hget
      have hid : entry.1 = id := by simpa using List.find?_some hentry
      have hmem := List.mem_reverse.1 (List.mem_of_find?_eq_some hentry)
      rw [← hid]
      exact List.mem_zipIdx_iff_getElem?.1 hmem
    · intro hat
      have hmem : (id, position) ∈ (ps.map Primitive.id).zipIdx :=
        List.mem_zipIdx_iff_getElem?.2 hat
      exact NameMap.get?_ofList_of_unique hmem (hunique _ hmem)

end TensorLowering.Topology
