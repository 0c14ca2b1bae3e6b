import TensorLowering.Overlay.Table
import TensorLowering.Proofs.NameMap

/-!
# Precedence of overlay documents

Documents are loaded one after the other, each with its own permission to replace. With permission a
document is taken whole; without it, up to its first descriptor for a type that is covered already,
by the overlay or by an earlier descriptor of the same document. What was taken before that one
stays. So after any number of documents the last descriptor taken for a type counts.

## Main statements

* `Overlay.load_eq_iff`: what one document adds, and what its load answers.
* `Overlay.loadAll_history`: what an overlay is after any number of documents.
-/

namespace TensorLowering

/-- An overlay document, with the name of its source and the permission to replace what is there. -/
structure OverlayDocument where
  text : String
  source : String
  replaces : Bool

namespace Overlay

variable {o next : Overlay} {ks : List KernelDescriptor} {k : KernelDescriptor} {d : OverlayDocument}
  {answer : Except OverlayError Nat} {source : String}

/-- Puts descriptors in order; of two for one type the later counts. -/
def put (o : Overlay) (ks : List KernelDescriptor) : Overlay :=
  ⟨o.kernels.insertAll (ks.map fun k => (k.type, k))⟩

@[simp] theorem put_nil (o : Overlay) : o.put [] = o := rfl

theorem put_cons (o : Overlay) (k : KernelDescriptor) (ks : List KernelDescriptor) :
    o.put (k :: ks) = (o.put [k]).put ks := rfl

theorem put_append (o : Overlay) (ks more : List KernelDescriptor) :
    o.put (ks ++ more) = (o.put ks).put more := by
  rw [put, List.map_append, NameMap.insertAll_append]
  rfl

/-- The last descriptor put for a type is the one for it; a type for which none was put has the one
that it had. -/
theorem get?_put (o : Overlay) (ks : List KernelDescriptor) (type : String) :
    (o.put ks).get? type = (ks.reverse.find? fun k => k.type == type).or (o.get? type) := by
  rw [put, get?, NameMap.get?_insertAll, ← List.map_reverse, List.find?_map, Option.map_map]
  exact congrArg (Option.or · (o.get? type)) Option.map_id'

theorem mem_types_put {type : String} :
    type ∈ (o.put ks).types ↔ type ∈ o.types ∨ type ∈ ks.map KernelDescriptor.type := by
  rw [put, types, NameMap.mem_names_insertAll, List.map_map]
  rfl

/-- The size is the number of different types. -/
theorem size_put (o : Overlay) (ks : List KernelDescriptor) :
    (o.put ks).size = (o.types ++ ks.map KernelDescriptor.type).dedup.length := by
  rw [put, size, NameMap.size_insertAll, List.map_map]
  rfl

/-- Descriptors of different types, none of which is covered. -/
structure Fresh (o : Overlay) (ks : List KernelDescriptor) : Prop where
  distinct : (ks.map KernelDescriptor.type).Nodup
  uncovered : ∀ k ∈ ks, k.type ∉ o.types

theorem fresh_nil (o : Overlay) : o.Fresh [] := ⟨List.nodup_nil, by simp⟩

/-- Descriptors are fresh when the first is and the others are behind it. -/
theorem fresh_cons_iff : o.Fresh (k :: ks) ↔ k.type ∉ o.types ∧ (o.put [k]).Fresh ks := by
  constructor
  · rintro ⟨hdistinct, huncovered⟩
    obtain ⟨hk, hks⟩ := List.forall_mem_cons.1 huncovered
    rw [List.map_cons, List.nodup_cons] at hdistinct
    refine ⟨hk, hdistinct.2, ?_⟩
    intro other hother hcovered
    rcases mem_types_put.1 hcovered with hold | hnew
    · exact hks other hother hold
    · apply hdistinct.1
      rw [← List.mem_singleton.1 hnew]
      exact List.mem_map_of_mem hother
  · rintro ⟨hk, hdistinct, huncovered⟩
    constructor
    · rw [List.map_cons, List.nodup_cons]
      refine ⟨?_, hdistinct⟩
      intro hmem
      obtain ⟨other, hother, hsame⟩ := List.mem_map.1 hmem
      apply huncovered other hother
      exact mem_types_put.2 (.inr (List.mem_singleton.2 hsame))
    · rw [List.forall_mem_cons]
      exact ⟨hk, fun other hother hold => huncovered other hother (mem_types_put.2 (.inl hold))⟩

/-- Descriptors that are not all fresh have a first one that is not. -/
theorem exists_of_not_fresh (h : ¬ o.Fresh ks) :
    ∃ before k after, ks = before ++ k :: after ∧ o.Fresh before ∧ k.type ∈ (o.put before).types := by
  induction ks generalizing o with
  | nil => exact absurd (fresh_nil o) h
  | cons k ks ih =>
      by_cases hk : k.type ∈ o.types
      · exact ⟨[], k, ks, rfl, fresh_nil o, hk⟩
      · have hrest : ¬ (o.put [k]).Fresh ks := fun hks => h (fresh_cons_iff.2 ⟨hk, hks⟩)
        obtain ⟨before, taken, after, rfl, hbefore, htaken⟩ := ih hrest
        refine ⟨k :: before, taken, after, rfl, fresh_cons_iff.2 ⟨hk, hbefore⟩, ?_⟩
        rwa [put_cons]

theorem contains_iff {type : String} : o.kernels.contains type = true ↔ type ∈ o.types := by
  rw [NameMap.contains, Option.isSome_iff_exists, types, NameMap.mem_names_iff]

theorem insert_of_allowed {replaces : Bool} (h : replaces = true ∨ k.type ∉ o.types) :
    o.insert k source replaces = .ok (o.put [k]) := by
  have hguard : ¬ (o.kernels.contains k.type && !replaces) = true := by
    rw [Bool.and_eq_true, contains_iff, Bool.not_eq_true']
    rintro ⟨hcovered, hkept⟩
    rcases h with hreplaces | huncovered
    · exact Bool.noConfusion (hkept.symm.trans hreplaces)
    · exact huncovered hcovered
  rw [insert, if_neg hguard]
  rfl

theorem insert_of_covered (h : k.type ∈ o.types) :
    o.insert k source false = .error (.duplicate k.type source) := by
  rw [insert, contains_iff.2 h]
  rfl

/-- Descriptors that may be added are all added. -/
theorem insertAll_of_allowed {replaces : Bool} (h : replaces = true ∨ o.Fresh ks) :
    o.insertAll source replaces ks = (o.put ks, none) := by
  induction ks generalizing o with
  | nil => rfl
  | cons k ks ih =>
      have hfirst : replaces = true ∨ k.type ∉ o.types := h.imp_right fun h => (fresh_cons_iff.1 h).1
      have hrest : replaces = true ∨ (o.put [k]).Fresh ks := h.imp_right fun h => (fresh_cons_iff.1 h).2
      rw [insertAll, insert_of_allowed hfirst]
      exact ih hrest

/-- A descriptor that may not be added ends the additions, and those in front of it stay. -/
theorem insertAll_of_covered {before after : List KernelDescriptor} (hbefore : o.Fresh before)
    (h : k.type ∈ (o.put before).types) :
    o.insertAll source false (before ++ k :: after) =
      (o.put before, some (.duplicate k.type source)) := by
  induction before generalizing o with
  | nil =>
      have hk : k.type ∈ o.types := h
      rw [List.nil_append, insertAll, insert_of_covered hk, put_nil]
  | cons first before ih =>
      obtain ⟨hfirst, hrest⟩ := fresh_cons_iff.1 hbefore
      rw [List.cons_append, insertAll, insert_of_allowed (.inr hfirst)]
      exact ih hrest h

/-- The descriptors that an overlay takes from a document, and the answer: all of them, or those in
front of the first that is for a type covered already. -/
inductive Takes (o : Overlay) (d : OverlayDocument) :
    List KernelDescriptor → Except OverlayError Nat → Prop
  | nothing (unreadable : descriptors? d.text = none) : Takes o d [] (.error (.parse d.source))
  | whole {ks : List KernelDescriptor} (read : descriptors? d.text = some ks)
      (allowed : d.replaces = true ∨ o.Fresh ks) : Takes o d ks (.ok ks.length)
  | upTo {before after : List KernelDescriptor} {k : KernelDescriptor}
      (read : descriptors? d.text = some (before ++ k :: after)) (keeps : d.replaces = false)
      (fresh : o.Fresh before)
      (covered : k.type ∈ o.types ∨ k.type ∈ before.map KernelDescriptor.type) :
      Takes o d before (.error (.duplicate k.type d.source))

theorem Takes.load_eq (h : o.Takes d ks answer) :
    o.load d.text d.source d.replaces = (o.put ks, answer) := by
  cases h with
  | nothing unreadable =>
      rw [load, unreadable]
      rfl
  | whole read allowed =>
      rw [load, read]
      simp only [insertAll_of_allowed allowed]
  | upTo read keeps fresh covered =>
      rw [load, read, keeps]
      simp only [insertAll_of_covered fresh (mem_types_put.2 covered)]

theorem exists_takes (o : Overlay) (d : OverlayDocument) : ∃ ks answer, o.Takes d ks answer := by
  cases hread : descriptors? d.text with
  | none => exact ⟨[], _, .nothing hread⟩
  | some ks =>
      by_cases hallowed : d.replaces = true ∨ o.Fresh ks
      · exact ⟨ks, _, .whole hread hallowed⟩
      · obtain ⟨hkeeps, hfresh⟩ := not_or.1 hallowed
        obtain ⟨before, k, after, rfl, hbefore, hcovered⟩ := exists_of_not_fresh hfresh
        exact ⟨before, _, .upTo hread (Bool.eq_false_iff.2 hkeeps) hbefore (mem_types_put.1 hcovered)⟩

/-- A load adds what the overlay takes from the document. -/
theorem load_eq_iff : o.load d.text d.source d.replaces = (next, answer) ↔
    ∃ ks, o.Takes d ks answer ∧ next = o.put ks := by
  constructor
  · intro h
    obtain ⟨ks, answer', htakes⟩ := exists_takes o d
    obtain ⟨rfl, rfl⟩ := Prod.mk.inj (htakes.load_eq.symm.trans h)
    exact ⟨ks, htakes, rfl⟩
  · rintro ⟨ks, htakes, rfl⟩
    exact htakes.load_eq

/-- A document is accepted when it can be read and its descriptors may be added. -/
theorem accepts_iff : (∃ count, (o.load d.text d.source d.replaces).2 = .ok count) ↔
    ∃ ks, descriptors? d.text = some ks ∧ (d.replaces = true ∨ o.Fresh ks) := by
  constructor
  · rintro ⟨count, hcount⟩
    obtain ⟨ks, answer, htakes⟩ := exists_takes o d
    rw [htakes.load_eq] at hcount
    cases htakes with
    | nothing _ => cases hcount
    | whole read allowed => exact ⟨ks, read, allowed⟩
    | upTo _ _ _ _ => cases hcount
  · rintro ⟨ks, hread, hallowed⟩
    exact ⟨ks.length, congrArg Prod.snd (Takes.whole hread hallowed).load_eq⟩

/-- Loads documents one after the other, whatever the answers are. -/
def loadAll (o : Overlay) : List OverlayDocument → Overlay × List (Except OverlayError Nat)
  | [] => (o, [])
  | d :: ds =>
    let (next, answer) := o.load d.text d.source d.replaces
    let (last, answers) := next.loadAll ds
    (last, answer :: answers)

/-- The descriptors that an overlay takes from documents one after the other, and the answers. -/
inductive TakesAll : Overlay → List OverlayDocument → List KernelDescriptor →
    List (Except OverlayError Nat) → Prop
  | nil (o : Overlay) : TakesAll o [] [] []
  | cons {o : Overlay} {d : OverlayDocument} {ds : List OverlayDocument}
      {ks more : List KernelDescriptor} {answer : Except OverlayError Nat}
      {answers : List (Except OverlayError Nat)} (first : o.Takes d ks answer)
      (rest : TakesAll (o.put ks) ds more answers) :
      TakesAll o (d :: ds) (ks ++ more) (answer :: answers)

/-- After any number of documents, all that was taken from them has been put in order. -/
theorem exists_takesAll (o : Overlay) (ds : List OverlayDocument) :
    ∃ taken, o.TakesAll ds taken (o.loadAll ds).2 ∧ (o.loadAll ds).1 = o.put taken := by
  induction ds generalizing o with
  | nil => exact ⟨[], .nil o, rfl⟩
  | cons d ds ih =>
      obtain ⟨ks, answer, htakes⟩ := exists_takes o d
      obtain ⟨more, hmore, hlast⟩ := ih (o.put ks)
      have hload : o.loadAll (d :: ds) =
          (((o.put ks).loadAll ds).1, answer :: ((o.put ks).loadAll ds).2) := by
        simp only [loadAll, htakes.load_eq]
      rw [hload]
      refine ⟨ks ++ more, .cons htakes hmore, ?_⟩
      rw [put_append]
      exact hlast

theorem loadAll_append_singleton (o : Overlay) (ds : List OverlayDocument) (d : OverlayDocument) :
    o.loadAll (ds ++ [d]) =
      let (now, answers) := o.loadAll ds
      let (next, answer) := now.load d.text d.source d.replaces
      (next, answers ++ [answer]) := by
  induction ds generalizing o with
  | nil => rfl
  | cons first ds ih => simp only [List.cons_append, loadAll, ih]

/-- What an overlay is after any documents, and what the next one does. A document that cannot be read
changes nothing. Any other is accepted exactly when it may replace, or its types are different and
not covered; if it is not accepted, the error names the first descriptor whose type is covered, by the
overlay or earlier in the document, and the descriptors in front of that one stay. The descriptor of
a type is the last one taken for it, or the one from the start, and the size is the number of
different types. -/
theorem loadAll_history (o : Overlay) (ds : List OverlayDocument) (d : OverlayDocument) :
    let (now, answers) := o.loadAll ds
    let (next, answer) := now.load d.text d.source d.replaces
    o.loadAll (ds ++ [d]) = (next, answers ++ [answer]) ∧
      (∃ taken, now.Takes d taken answer ∧ next = now.put taken) ∧
      ((∃ count, answer = .ok count) ↔
        ∃ ks, descriptors? d.text = some ks ∧ (d.replaces = true ∨ now.Fresh ks)) ∧
      ∃ taken, o.TakesAll ds taken answers ∧
        (∀ type, now.get? type =
          (taken.reverse.find? fun k => k.type == type).or (o.get? type)) ∧
        now.size = (o.types ++ taken.map KernelDescriptor.type).dedup.length := by
  obtain ⟨taken, htaken, hnow⟩ := exists_takesAll o ds
  refine ⟨o.loadAll_append_singleton ds d, load_eq_iff.1 rfl, accepts_iff, taken, htaken, ?_⟩
  rw [hnow]
  exact ⟨o.get?_put taken, o.size_put taken⟩

/-- A document that is refused at its second kernel: the first one stays, and the third is not read. -/
example : Prod.map types id (empty.loadAll [⟨"[[[\"Erf\",\"e\",\"s\"]]]", "first", false⟩,
      ⟨"[[[\"Add\",\"a\",\"s\"],[\"Erf\",\"f\",\"s\"],[\"Mul\",\"m\",\"s\"]]]", "second", false⟩]) =
    (["Add", "Erf"], [.ok 1, .error (.duplicate "Erf" "second")]) := by
  decide +kernel

end Overlay

end TensorLowering
