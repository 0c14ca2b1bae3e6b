import Mathlib.Data.List.Dedup
import Mathlib.Data.List.Induction
import TensorLowering.NameMap

/-!
# Maps written entry by entry

A map that is written entry by entry has for every name the value that was written last, and as many
entries as different names were written.

## Main statements

* `NameMap.eq_of_get?_eq`: maps with the same names and values are equal.
* `NameMap.get?_insertAll`: the last entry of a name counts.
* `NameMap.size_insertAll`: the size is the number of different names.
* `NameMap.size_ofList_eq_iff`: no entry is lost exactly when no two have one name.
-/

namespace TensorLowering.NameMap

variable {α : Type} {m : NameMap α} {entries : List (String × α)} {name : String}

theorem nodup_names (m : NameMap α) : m.names.Nodup := by
  have hascending : m.names.Pairwise (· < ·) := List.pairwise_map.2 m.ascending
  apply hascending.imp
  rintro a _ hlt rfl
  exact String.lt_irrefl a hlt

theorem mem_names_iff : name ∈ m.names ↔ ∃ value, m.get? name = some value := by
  rw [names, get?, List.mem_map]
  constructor
  · rintro ⟨entry, hentry, rfl⟩
    have hfound : (m.entries.find? fun other => other.1 == entry.1).isSome := by
      rw [List.find?_isSome]
      exact ⟨entry, hentry, beq_self_eq_true _⟩
    obtain ⟨found, hfound⟩ := Option.isSome_iff_exists.1 hfound
    exact ⟨found.2, by rw [hfound, Option.map_some]⟩
  · rintro ⟨value, hvalue⟩
    obtain ⟨entry, hfound, -⟩ := Option.map_eq_some_iff.1 hvalue
    exact ⟨entry, List.mem_of_find?_eq_some hfound, by simpa using List.find?_some hfound⟩

theorem mem_entries_iff {value : α} :
    (name, value) ∈ m.entries ↔ m.get? name = some value := by
  constructor
  · intro hentry
    obtain ⟨value', hvalue'⟩ := mem_names_iff.1 (List.mem_map.2 ⟨_, hentry, rfl⟩)
    obtain ⟨found, hfound, rfl⟩ := Option.map_eq_some_iff.1 hvalue'
    have hname : found.1 = name := by simpa using List.find?_some hfound
    have hsame := List.inj_on_of_nodup_map m.nodup_names (List.mem_of_find?_eq_some hfound) hentry
      hname
    rw [hvalue', hsame]
  · intro hvalue
    obtain ⟨found, hfound, rfl⟩ := Option.map_eq_some_iff.1 hvalue
    have hname : found.1 = name := by simpa using List.find?_some hfound
    rw [← hname]
    exact List.mem_of_find?_eq_some hfound

/-- Maps with the same names and the same values under them are equal. -/
theorem eq_of_get?_eq {m' : NameMap α} (hnames : ∀ name, name ∈ m.names ↔ name ∈ m'.names)
    (hvalues : ∀ name ∈ m'.names, m.get? name = m'.get? name) : m = m' := by
  have hmem : ∀ entry, entry ∈ m.entries ↔ entry ∈ m'.entries := by
    rintro ⟨name, value⟩
    rw [mem_entries_iff, mem_entries_iff]
    by_cases hname : name ∈ m'.names
    · rw [hvalues name hname]
    · have hnot := (not_congr (hnames name)).2 hname
      rw [mem_names_iff] at hname hnot
      exact iff_of_false (fun h => hnot ⟨value, h⟩) (fun h => hname ⟨value, h⟩)
  have hperm : m.entries.Perm m'.entries := by
    rw [List.perm_ext_iff_of_nodup (m.nodup_names.of_map _) (m'.nodup_names.of_map _)]
    exact hmem
  have hentries : m.entries = m'.entries := by
    apply hperm.eq_of_pairwise _ m.ascending m'.ascending
    intro a b _ _ hab hba
    exact absurd (String.lt_trans hab hba) (String.lt_irrefl a.1)
  cases m
  cases m'
  congr

/-- Writes entries in order; of two with one name the later counts. -/
def insertAll (m : NameMap α) (entries : List (String × α)) : NameMap α :=
  entries.foldl (fun m entry => m.insert entry.1 entry.2) m

theorem insertAll_append (m : NameMap α) (entries more : List (String × α)) :
    m.insertAll (entries ++ more) = (m.insertAll entries).insertAll more :=
  List.foldl_append

/-- Of the entries with a name the last one counts, and without any the value that was there. -/
theorem get?_insertAll (m : NameMap α) (entries : List (String × α)) (name : String) :
    (m.insertAll entries).get? name =
      ((entries.reverse.find? fun entry => entry.1 == name).map Prod.snd).or (m.get? name) := by
  induction entries using List.reverseRecOn with
  | nil => rfl
  | append_singleton entries entry ih =>
      have hlast : m.insertAll (entries ++ [entry]) =
          (m.insertAll entries).insert entry.1 entry.2 := m.insertAll_append entries [entry]
      rw [hlast, get?_insert, List.reverse_append, List.reverse_singleton, List.singleton_append,
        List.find?_cons]
      by_cases hname : name = entry.1
      · simp [hname]
      · have hother : (entry.1 == name) = false := by simpa using Ne.symm hname
        rw [if_neg hname, ih, hother]

theorem mem_names_insertAll : name ∈ (m.insertAll entries).names ↔
    name ∈ m.names ∨ name ∈ entries.map Prod.fst := by
  induction entries using List.reverseRecOn with
  | nil => simp [insertAll]
  | append_singleton entries entry ih =>
      have hlast : m.insertAll (entries ++ [entry]) =
          (m.insertAll entries).insert entry.1 entry.2 := m.insertAll_append entries [entry]
      rw [mem_names_iff] at ih ⊢
      rw [hlast, List.map_append, List.mem_append, ← or_assoc, ← ih]
      by_cases hname : name = entry.1
      · simp [get?_insert, hname]
      · simp [get?_insert, hname]

/-- The size is the number of different names. -/
theorem size_insertAll (m : NameMap α) (entries : List (String × α)) :
    (m.insertAll entries).size = (m.names ++ entries.map Prod.fst).dedup.length := by
  have hperm : (m.insertAll entries).names.Perm (m.names ++ entries.map Prod.fst).dedup := by
    rw [List.perm_ext_iff_of_nodup (nodup_names _) (List.nodup_dedup _)]
    intro name
    rw [mem_names_insertAll, List.mem_dedup, List.mem_append]
  rw [← hperm.length_eq, names, List.length_map, size]

/-- Of the entries with a name the last one counts. -/
theorem get?_ofList (entries : List (String × α)) (name : String) :
    (ofList entries).get? name =
      (entries.reverse.find? fun entry => entry.1 == name).map Prod.snd := by
  have h := empty.get?_insertAll entries name
  rwa [get?_empty, Option.or_none] at h

/-- A value is kept when no other is written under its name. -/
theorem get?_ofList_of_unique {entry : String × α} (hentry : entry ∈ entries)
    (hunique : ∀ other ∈ entries, other.1 = entry.1 → other.2 = entry.2) :
    (ofList entries).get? entry.1 = some entry.2 := by
  have hfound : (entries.reverse.find? fun other => other.1 == entry.1).isSome := by
    rw [List.find?_isSome]
    exact ⟨entry, List.mem_reverse.2 hentry, beq_self_eq_true _⟩
  obtain ⟨found, hfound⟩ := Option.isSome_iff_exists.1 hfound
  have hname : found.1 = entry.1 := by simpa using List.find?_some hfound
  have hmem := List.mem_reverse.1 (List.mem_of_find?_eq_some hfound)
  rw [get?_ofList, hfound, Option.map_some, hunique found hmem hname]

theorem mem_names_ofList : name ∈ (ofList entries).names ↔ name ∈ entries.map Prod.fst := by
  have h : name ∈ (empty.insertAll entries).names ↔ _ := mem_names_insertAll
  rwa [or_iff_right (by exact List.not_mem_nil)] at h

/-- A map is the map of its entries. -/
theorem ofList_entries (m : NameMap α) : ofList m.entries = m := by
  apply eq_of_get?_eq
  · exact fun name => mem_names_ofList
  · intro name hname
    obtain ⟨value, hvalue⟩ := mem_names_iff.1 hname
    rw [hvalue]
    apply get?_ofList_of_unique (mem_entries_iff.2 hvalue)
    rintro ⟨_, other⟩ hother rfl
    exact Option.some.inj ((mem_entries_iff.1 hother).symm.trans hvalue)

/-- No entry is lost exactly when no two have one name. -/
theorem size_ofList_eq_iff :
    (ofList entries).size = entries.length ↔ (entries.map Prod.fst).Nodup := by
  have hsize : (ofList entries).size = (entries.map Prod.fst).dedup.length :=
    empty.size_insertAll entries
  rw [hsize, ← List.dedup_eq_self, ← List.length_map (f := Prod.fst)]
  constructor
  · exact (List.dedup_sublist _).eq_of_length
  · exact congrArg List.length

end TensorLowering.NameMap
