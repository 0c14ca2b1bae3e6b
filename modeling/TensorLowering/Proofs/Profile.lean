import Mathlib.Data.List.Nodup
import TensorLowering.Profile

/-!
# Updates of profiles

A record under a new identifier comes last. Updates keep the entries, their order and what they say
about their primitives; after updates under distinct identifiers an entry says what the update under
its identifier has stored.

## Main statements

* `Profile.map_cleared_updateAll`: what updates keep.
* `Profile.entries_updateAll`: what updates store.
-/

namespace TensorLowering

namespace ProfileEntry

/-- The entry after the primitive has run. -/
def ran (e : ProfileEntry) (status : ProfileStatus) (time : Nat) : ProfileEntry :=
  { e with status := status, cpuTime := time, deviceTime := 0 }

/-- The entry as it was before any run. -/
def cleared (e : ProfileEntry) : ProfileEntry := e.ran .executed 0

variable (e : ProfileEntry) (status : ProfileStatus) (time : Nat)

@[simp] theorem ran_id : (e.ran status time).id = e.id := rfl
@[simp] theorem cleared_id : e.cleared.id = e.id := rfl
@[simp] theorem cleared_ran : (e.ran status time).cleared = e.cleared := rfl
@[simp] theorem ran_cleared : e.cleared.ran status time = e.ran status time := rfl

end ProfileEntry

namespace Profile

/-- What became of a primitive, under its identifier. -/
structure Update where
  id : String
  status : ProfileStatus
  time : Nat

/-- Stores what became of several primitives, in order. -/
def updateAll (profile : Profile) (updates : List Update) : Profile :=
  updates.foldl (fun profile u => profile.update u.id u.status u.time 0) profile

variable {profile : Profile}

theorem entries_update (u : Update) : (profile.update u.id u.status u.time 0).entries =
    profile.entries.map fun e => if e.id = u.id then e.ran u.status u.time else e := rfl

/-- A record under a new identifier comes last. -/
theorem entries_record {id layerType originName : String}
    (hnew : id ∉ profile.entries.map ProfileEntry.id) :
    (profile.record id layerType originName).entries =
      profile.entries ++ [.new id layerType originName] := by
  have hnone : profile.entries.any (·.id == id) = false := by
    rw [List.any_eq_false]
    intro e he hid
    exact hnew (List.mem_map.2 ⟨e, he, beq_iff_eq.1 hid⟩)
  rw [record, hnone]
  rfl

/-- Apart from status and times the entries stay as they are. -/
theorem map_cleared_updateAll (updates : List Update) :
    (profile.updateAll updates).entries.map ProfileEntry.cleared =
      profile.entries.map ProfileEntry.cleared := by
  induction updates generalizing profile with
  | nil => rfl
  | cons u rest ih =>
      calc (profile.updateAll (u :: rest)).entries.map ProfileEntry.cleared
          = (profile.update u.id u.status u.time 0).entries.map ProfileEntry.cleared := ih
        _ = profile.entries.map ProfileEntry.cleared := by
          rw [entries_update, List.map_map]
          apply List.map_congr_left
          intro e _
          by_cases hid : e.id = u.id <;> simp [hid]

/-- Each entry has what the update under its identifier stores. -/
theorem entries_updateAll {updates : List Update} (hnodup : (updates.map Update.id).Nodup) :
    (profile.updateAll updates).entries = profile.entries.map fun e =>
      (updates.find? (·.id == e.id)).elim e fun u => e.ran u.status u.time := by
  induction updates generalizing profile with
  | nil => simp [updateAll]
  | cons u rest ih =>
      obtain ⟨hnew, hrest⟩ := List.nodup_cons.1 hnodup
      rw [updateAll, List.foldl_cons, ← updateAll, ih hrest, entries_update, List.map_map]
      apply List.map_congr_left
      intro e _
      by_cases hid : e.id = u.id
      · -- no later update is stored under the same identifier
        have hnone : rest.find? (·.id == u.id) = none := by
          rw [List.find?_eq_none]
          intro v hv hsame
          exact hnew (List.mem_map.2 ⟨v, hv, beq_iff_eq.1 hsame⟩)
        simp [hid, hnone]
      · have hid' : ¬ u.id = e.id := fun h => hid h.symm
        simp [hid, hid']

/-- Under distinct identifiers every update is found under its own. -/
theorem find?_update {updates : List Update} (hnodup : (updates.map Update.id).Nodup) {u : Update}
    (hu : u ∈ updates) : updates.find? (·.id == u.id) = some u := by
  obtain ⟨v, hv⟩ : ∃ v, updates.find? (·.id == u.id) = some v := by
    apply Option.isSome_iff_exists.1
    rw [List.find?_isSome]
    exact ⟨u, hu, beq_self_eq_true u.id⟩
  have hid : v.id = u.id := by simpa using List.find?_some hv
  rw [hv, List.inj_on_of_nodup_map hnodup (List.mem_of_find?_eq_some hv) hu hid]

/-- When every entry has an update, nothing is left of what was stored before. -/
theorem entries_updateAll_of_mem {updates : List Update} (hnodup : (updates.map Update.id).Nodup)
    {α : Type} {xs : List α} {entry : α → ProfileEntry} {update : α → Update}
    (hlisted : profile.entries.map ProfileEntry.cleared = xs.map entry)
    (hupdate : ∀ x ∈ xs, update x ∈ updates ∧ (update x).id = (entry x).id) :
    (profile.updateAll updates).entries =
      xs.map fun x => (entry x).ran (update x).status (update x).time := by
  let stored (e : ProfileEntry) : ProfileEntry :=
    (updates.find? (·.id == e.id)).elim e fun u => e.ran u.status u.time
  have hstored : ∀ x ∈ xs, ∀ e : ProfileEntry, e.id = (entry x).id →
      stored e = e.ran (update x).status (update x).time := by
    intro x hx e he
    obtain ⟨hmem, hid⟩ := hupdate x hx
    simp only [stored, he, ← hid, find?_update hnodup hmem, Option.elim_some]
  calc (profile.updateAll updates).entries
      = profile.entries.map stored := entries_updateAll hnodup
    _ = profile.entries.map (stored ∘ ProfileEntry.cleared) := by
      apply List.map_congr_left
      intro e he
      obtain ⟨x, hx, hentry⟩ := List.mem_map.1 (hlisted ▸ List.mem_map_of_mem he)
      rw [Function.comp_apply, hstored x hx e (by rw [hentry, ProfileEntry.cleared_id]),
        hstored x hx e.cleared (by rw [hentry]), ProfileEntry.ran_cleared]
    _ = xs.map (stored ∘ entry) := by rw [← List.map_map, hlisted, List.map_map]
    _ = xs.map fun x => (entry x).ran (update x).status (update x).time := by
      apply List.map_congr_left
      intro x hx
      exact hstored x hx (entry x) rfl

end Profile

end TensorLowering
