import Mathlib.Data.List.Nodup
import Mathlib.Data.List.Perm.Subperm
import TensorLowering.Proofs.Outcome
import TensorLowering.Proofs.Topology.Index
import TensorLowering.Topology.Schedule

/-!
# Schedules are dependency orders

A schedule lists every primitive once, each after everything that it reads. A topology has one
exactly when its primitives can be put into such an order at all.

## Implementation notes

One invariant, `Scheduling.Sound`, carries the whole argument: a counter is the number of
dependencies that are not scheduled, and a position is scheduled or ready exactly when its counter
is zero. `release_all` says what one turn does to the counters. Of a run that has come to its end,
later statements only use what `Topology.Reached` says.

## Main statements

* `Topology.exists_reached`: what a schedule is, also when not every primitive can be scheduled.
* `Topology.schedule_perm`, `Topology.schedule_inOrder`: a schedule is a dependency order.
* `Topology.exists_schedule`: a topology whose primitives have some dependency order has one.
-/

namespace TensorLowering

/-- Each primitive comes after everything that it reads: every input of the primitive at a position
names a primitive at a smaller position. -/
def InOrder (ps : List Primitive) : Prop :=
  ∀ i p, ps[i]? = some p → ∀ s ∈ p.inputs, s.id ∈ (ps.take i).map Primitive.id

theorem InOrder.of_append {ps qs : List Primitive} (h : InOrder (ps ++ qs)) : InOrder ps := by
  intro i p hp
  obtain ⟨hlt, -⟩ := List.getElem?_eq_some_iff.1 hp
  have := h i p (by rw [List.getElem?_append_left hlt, hp])
  rwa [List.take_append_of_le_length (Nat.le_of_lt hlt)] at this

theorem nodup_eraseDups {α : Type} [BEq α] [LawfulBEq α] (xs : List α) : xs.eraseDups.Nodup := by
  induction h : xs.length using Nat.strongRecOn generalizing xs with
  | _ n ih =>
      cases xs with
      | nil => simp
      | cons x rest =>
          rw [List.eraseDups_cons, List.nodup_cons]
          have hlt : (rest.filter fun y => !y == x).length < n := by
            subst h
            exact Nat.lt_succ_of_le (List.length_filter_le _ _)
          exact ⟨by simp [List.mem_eraseDups], ih _ hlt _ rfl⟩

namespace Scheduling

variable {table : List (List Nat)}

/-- The number of dependencies of `user` that are not scheduled. -/
def waiting (table : List (List Nat)) (done : List Nat) (user : Nat) : Nat :=
  ((table.getD user []).filter fun d => !done.contains d).length

theorem waiting_eq_zero_iff {done : List Nat} {user : Nat} :
    waiting table done user = 0 ↔ ∀ d ∈ table.getD user [], d ∈ done := by
  rw [waiting, List.length_eq_zero_iff, List.filter_eq_nil_iff]
  simp

/-- Scheduling one more position takes one off the counters of its users and of nobody else. -/
theorem waiting_snoc {done : List Nat} {position user : Nat}
    (hrow : (table.getD user []).Nodup) (hnew : position ∉ done) :
    waiting table (done ++ [position]) user =
      if (table.getD user []).contains position then waiting table done user - 1
      else waiting table done user := by
  have hsplit : ((table.getD user []).filter fun d => !(done ++ [position]).contains d) =
      ((table.getD user []).filter fun d => !done.contains d).erase position := by
    rw [List.Nodup.erase_eq_filter (hrow.filter _), List.filter_filter]
    apply List.filter_congr
    intro d _
    by_cases hd : d = position <;> by_cases hmem : d ∈ done <;> simp [hd, hmem]
  rw [waiting, waiting, hsplit, List.length_erase]
  simp [hnew]

/-- A state that a scheduling can be in. -/
structure Sound (table : List (List Nat)) (s : Scheduling) : Prop where
  pending : ∀ user, s.pending[user]? =
    if user < table.length then some (waiting table s.done user) else none
  nodup : (s.done ++ s.ready).Nodup
  mem_iff : ∀ user, user ∈ s.done ++ s.ready ↔ user < table.length ∧ waiting table s.done user = 0
  ordered : ∀ i user, s.done[i]? = some user → ∀ d ∈ table.getD user [], d ∈ s.done.take i

theorem sound_start (table : List (List Nat)) : Sound table (start table) := by
  have hpending : ∀ user, (start table).pending[user]? =
      if user < table.length then some (waiting table [] user) else none := by
    intro user
    by_cases h : user < table.length <;> simp [start, waiting, h]
  refine ⟨hpending, ?_, ?_, by simp [start]⟩
  · simp only [start, List.nil_append]
    exact List.nodup_range.filter _
  · intro user
    have := hpending user
    by_cases h : user < table.length
    · simp_all [start]
    · simp [start, h]

/-- Taking one dependency off each of several primitives that wait for something. -/
theorem release_all {users : List Nat} (hnodup : users.Nodup) (s : Scheduling)
    (hwaiting : ∀ user ∈ users, ∃ count, s.pending[user]? = some (count + 1)) :
    ∃ next, users.foldlM release s = some next ∧ next.done = s.done ∧
      (∀ user, next.pending[user]? =
        if user ∈ users then s.pending[user]?.map (· - 1) else s.pending[user]?) ∧
      next.ready = s.ready ++ users.filter fun user => s.pending[user]? = some 1 := by
  induction users generalizing s with
  | nil => exact ⟨s, rfl, rfl, by simp, by simp⟩
  | cons user rest ih =>
      obtain ⟨hnot, hrest⟩ := List.nodup_cons.1 hnodup
      obtain ⟨count, hcount⟩ := hwaiting user List.mem_cons_self
      let mid : Scheduling := { s with
        pending := s.pending.set user count
        ready := if count = 0 then s.ready ++ [user] else s.ready }
      have hmid : s.release user = some mid := by simp [release, hcount, mid]
      have hother : ∀ other, other ≠ user → mid.pending[other]? = s.pending[other]? := by
        intro other hne
        simp [mid, List.getElem?_set_ne (Ne.symm hne)]
      have hlt : user < s.pending.length := (List.getElem?_eq_some_iff.1 hcount).1
      have hstill : ∀ other ∈ rest, ∃ count, mid.pending[other]? = some (count + 1) := by
        intro other hmem
        rw [hother other fun h => hnot (h ▸ hmem)]
        exact hwaiting other (List.mem_cons_of_mem _ hmem)
      obtain ⟨next, hrun, hdone, hpending, hready⟩ := ih hrest mid hstill
      refine ⟨next, by simp [List.foldlM_cons, hmid, hrun], hdone, ?_, ?_⟩
      · intro other
        rw [hpending other]
        by_cases heq : other = user
        · subst heq
          rw [if_neg hnot, if_pos List.mem_cons_self, hcount]
          simp [mid, hlt]
        · simp [hother other heq, heq]
      · have hfilter : (rest.filter fun other => mid.pending[other]? = some 1) =
            rest.filter fun other => s.pending[other]? = some 1 := by
          apply List.filter_congr
          intro other hmem
          rw [hother other fun h => hnot (h ▸ hmem)]
        rw [hready, hfilter]
        by_cases hzero : count = 0 <;> simp [mid, hcount, hzero]

theorem mem_users {position user : Nat} :
    user ∈ users table position ↔ user < table.length ∧ position ∈ table.getD user [] := by
  simp [users]

/-- A user of a position that is not scheduled waits for something. -/
theorem waiting_pos {done : List Nat} {position user : Nat} (hnew : position ∉ done)
    (hdep : position ∈ table.getD user []) : 0 < waiting table done user := by
  apply Nat.pos_of_ne_zero
  intro h
  exact hnew (waiting_eq_zero_iff.1 h position hdep)

/-- The users of a position that wait for nothing else. -/
theorem Sound.mem_released_iff {s : Scheduling} (hs : Sound table s) {position user : Nat} :
    user ∈ (users table position).filter (fun user => s.pending[user]? = some 1) ↔
      user < table.length ∧ position ∈ table.getD user [] ∧ waiting table s.done user = 1 := by
  rw [List.mem_filter, mem_users, hs.pending user, and_assoc]
  by_cases hbound : user < table.length <;> simp [hbound]

/-- One turn, seen from outside: a position is scheduled, and the users that wait for nothing else
become ready behind the others. -/
structure Turn (table : List (List Nat)) (position : Nat) (s next : Scheduling) : Prop where
  done : next.done = s.done ++ [position]
  queue : next.done ++ next.ready =
    s.done ++ s.ready ++ (users table position).filter fun user => s.pending[user]? = some 1

/-- In a sound state the first ready position can be scheduled, and the state stays sound. -/
theorem Sound.turn {s : Scheduling} (hs : Sound table s)
    (hrows : ∀ user, (table.getD user []).Nodup) {position : Nat} {ready : List Nat}
    (hready : s.ready = position :: ready) :
    ∃ next, (users table position).foldlM release
        { s with ready := ready, done := s.done ++ [position] } = some next ∧
      Sound table next ∧ Turn table position s next := by
  have hnodup : (s.done ++ position :: ready).Nodup := hready ▸ hs.nodup
  have hnew : position ∉ s.done := by
    intro h
    exact (List.nodup_append.1 hnodup).2.2 _ h _ List.mem_cons_self rfl
  obtain ⟨hlt, hzero⟩ := (hs.mem_iff position).1 (by simp [hready])
  have hwaiting : ∀ user ∈ users table position, ∃ count, s.pending[user]? = some (count + 1) := by
    intro user huser
    obtain ⟨hbound, hdep⟩ := mem_users.1 huser
    have hpos := waiting_pos hnew hdep
    refine ⟨waiting table s.done user - 1, ?_⟩
    rw [hs.pending user, if_pos hbound, Nat.sub_add_cancel hpos]
  have husers : (users table position).Nodup := List.nodup_range.filter _
  obtain ⟨next, hrun, hdone, hpending, hnext⟩ := release_all husers
    { s with ready := ready, done := s.done ++ [position] } hwaiting
  have hqueue : next.done ++ next.ready =
      s.done ++ s.ready ++ (users table position).filter fun user => s.pending[user]? = some 1 := by
    simp [hdone, hnext, hready]
  refine ⟨next, hrun, ⟨?_, ?_, ?_, ?_⟩, hdone, hqueue⟩
  · intro user
    rw [hpending user, hdone, waiting_snoc (hrows user) hnew, hs.pending user]
    simp only [mem_users, List.contains_eq_mem, decide_eq_true_eq]
    by_cases hbound : user < table.length <;>
      by_cases hdep : position ∈ table.getD user [] <;>
      simp only [hbound, hdep, and_true, and_false, if_true, if_false, Option.map_some,
        Option.map_none]
  · rw [hqueue]
    refine List.nodup_append.2 ⟨hs.nodup, (List.nodup_range.filter _).filter _, ?_⟩
    -- a user that just became ready was waiting before, so it is neither scheduled nor ready
    rintro user hold _ hmem rfl
    obtain ⟨-, -, hone⟩ := hs.mem_released_iff.1 hmem
    have := ((hs.mem_iff user).1 hold).2
    omega
  · intro user
    rw [hqueue, List.mem_append, hs.mem_iff user, hs.mem_released_iff, hdone,
      waiting_snoc (hrows user) hnew]
    simp only [List.contains_eq_mem, decide_eq_true_eq]
    by_cases hdep : position ∈ table.getD user []
    · have := waiting_pos hnew hdep
      simp only [hdep, if_true, true_and]
      omega
    · simp only [hdep, if_false, false_and, and_false, or_false]
  · intro i user hi d hd
    rw [hdone] at hi ⊢
    rcases getElem?_append_singleton_cases hi with ⟨hlt, hi⟩ | ⟨rfl, rfl⟩
    · rw [List.take_append_of_le_length (Nat.le_of_lt hlt)]
      exact hs.ordered i user hi d hd
    · rw [List.take_left]
      exact waiting_eq_zero_iff.1 hzero d hd

/-- A run stays sound, stops early only when nothing is ready, and ends with whatever each of its
turns keeps. -/
theorem Sound.run {P : Scheduling → Prop} (hrows : ∀ user, (table.getD user []).Nodup)
    (hkept : ∀ {position s next}, Sound table s → Sound table next → Turn table position s next →
      P s → P next)
    {s : Scheduling} (hs : Sound table s) (hP : P s) (turns : Nat) :
    ∃ final, Scheduling.run table turns s = some final ∧ Sound table final ∧ P final ∧
      (final.ready = [] ∨ final.done.length = s.done.length + turns) := by
  induction turns generalizing s with
  | zero => exact ⟨s, rfl, hs, hP, .inr rfl⟩
  | succ turns ih =>
      cases hready : s.ready with
      | nil => exact ⟨s, by simp [Scheduling.run, hready], hs, hP, .inl hready⟩
      | cons position ready =>
          obtain ⟨next, hreleased, hnext, hturn⟩ := hs.turn hrows hready
          obtain ⟨final, hrun, hfinal, hPfinal, hend⟩ := ih hnext (hkept hs hnext hturn hP)
          refine ⟨final, by simp [Scheduling.run, hready, hreleased, hrun], hfinal, hPfinal, ?_⟩
          apply hend.imp_right
          intro h
          rw [h, hturn.done, List.length_append, List.length_singleton]
          omega

theorem Sound.done_nodup {s : Scheduling} (hs : Sound table s) : s.done.Nodup :=
  (List.nodup_append.1 hs.nodup).1

theorem Sound.done_lt {s : Scheduling} (hs : Sound table s) :
    ∀ user ∈ s.done, user < table.length :=
  fun user h => ((hs.mem_iff user).1 (List.mem_append_left _ h)).1

theorem Sound.done_subperm {s : Scheduling} (hs : Sound table s) :
    s.done.Subperm (List.range table.length) := by
  apply List.subperm_of_subset hs.done_nodup
  intro user h
  exact List.mem_range.2 (hs.done_lt user h)

/-- Once every position is scheduled, the order lists the positions, each once. -/
theorem Sound.done_perm {s : Scheduling} (hs : Sound table s)
    (hlength : s.done.length = table.length) :
    s.done.Perm (List.range table.length) :=
  hs.done_subperm.perm_of_length_le (by simp [hlength])

end Scheduling

namespace Topology

variable {t : Topology}

theorem mem_dependencies {p : Primitive} {d : Nat} :
    d ∈ t.dependencies p ↔ ∃ s ∈ p.inputs, t.position? s.id = some d := by
  simp [dependencies, List.mem_eraseDups]

theorem getD_dependencyTable (user : Nat) :
    t.dependencyTable.getD user [] = (t.primitives[user]?.map t.dependencies).getD [] := by
  simp [dependencyTable]

theorem nodup_dependencyTable (user : Nat) : (t.dependencyTable.getD user []).Nodup := by
  rw [getD_dependencyTable]
  rcases t.primitives[user]? with _ | p
  · exact .nil
  · exact nodup_eraseDups _

theorem length_dependencyTable : t.dependencyTable.length = t.size := by
  simp [dependencyTable, size]

/-- A valid topology has a primitive for every input. -/
theorem validate_eq_ok_iff :
    t.validate = .ok () ↔ ∀ p ∈ t.primitives, ∀ s ∈ p.inputs, s.id ∈ t.ids := by
  have hunresolved : t.unresolved = [] ↔ ∀ p ∈ t.primitives, ∀ s ∈ p.inputs, s.id ∈ t.ids := by
    simp [unresolved, contains_iff]
  rw [← hunresolved, validate]
  rcases t.unresolved with _ | ⟨⟨p, s⟩, rest⟩ <;> simp

/-- Once every input names a primitive, the schedule is what the run has done. -/
theorem schedule_of_validate (h : t.validate = .ok ()) : t.schedule = (do
    let final ← Outcome.ofOption
      (Scheduling.run t.dependencyTable t.size (.start t.dependencyTable))
    if final.done.length ≠ t.size then .fail (.cycle (t.size - final.done.length))
    else .ofOption (final.done.mapM (t.primitives[·]?))) := by
  simp only [schedule, h]

/-- A schedule is what a complete run has done, position by position. -/
theorem schedule_eq_ok_iff {order : List Primitive} :
    t.schedule = .ok order ↔ t.validate = .ok () ∧ ∃ final,
      Scheduling.run t.dependencyTable t.size (.start t.dependencyTable) = some final ∧
      final.done.length = t.size ∧
      List.Forall₂ (fun d p => t.primitives[d]? = some p) final.done order := by
  cases hv : t.validate with
  | error e => simp [schedule, hv, bind, Except.bind, Outcome.fail]
  | ok =>
      rw [schedule_of_validate hv, Outcome.bind_eq_ok_iff]
      simp only [Outcome.ofOption_eq_ok_iff, true_and]
      apply exists_congr
      intro final
      by_cases hlen : final.done.length = t.size
      · simp [hlen, Outcome.mapM_eq_some_iff]
      · simp [hlen]

/-- The run behind a schedule ends in a sound state. -/
theorem run_schedule (t : Topology) : ∃ final,
    Scheduling.run t.dependencyTable t.size (.start t.dependencyTable) = some final ∧
      Scheduling.Sound t.dependencyTable final ∧
      (final.ready = [] ∨ final.done.length = t.size) := by
  obtain ⟨final, hrun, hsound, -, hend⟩ := Scheduling.Sound.run (P := fun _ => True)
    nodup_dependencyTable (fun _ _ _ h => h) (Scheduling.sound_start t.dependencyTable) trivial
    t.size
  exact ⟨final, hrun, hsound, hend.imp_right (by simp [Scheduling.start])⟩

theorem filterMap_of_forall₂ {α β : Type} {f : α → Option β} {xs : List α} {ys : List β}
    (h : List.Forall₂ (fun x y => f x = some y) xs ys) : xs.filterMap f = ys := by
  induction h with
  | nil => rfl
  | cons hy _ ih => rw [List.filterMap_cons, hy, ih]

/-- The primitives that a scheduling reaches: each comes after everything that it reads, and no
other primitive reads only them. -/
structure Reached (t : Topology) (ps : List Primitive) : Prop where
  subset : ps ⊆ t.primitives
  nodup : ps.Nodup
  ordered : InOrder ps
  closed : ∀ p ∈ t.primitives, (∀ s ∈ p.inputs, s.id ∈ ps.map Primitive.id) → p ∈ ps

section Run

variable {final : Scheduling} {ps : List Primitive}
  (hall : List.Forall₂ (fun d p => t.primitives[d]? = some p) final.done ps)
include hall

/-- A position is scheduled exactly when its primitive is. -/
theorem mem_done_iff {i : Nat} {p : Primitive} (hp : t.primitives[i]? = some p) :
    i ∈ final.done ↔ p ∈ ps := by
  constructor
  · intro hi
    obtain ⟨k, hk⟩ := List.mem_iff_getElem?.1 hi
    obtain ⟨q, hq, hread⟩ := exists_right_of_forall₂ hall hk
    obtain rfl := Option.some.inj (hread.symm.trans hp)
    exact List.mem_of_getElem? hq
  · intro hmem
    obtain ⟨k, hk⟩ := List.mem_iff_getElem?.1 hmem
    obtain ⟨d, hd, hread⟩ := exists_left_of_forall₂ hall hk
    obtain rfl := eq_of_getElem?_eq hread hp
    exact List.mem_of_getElem? hd

theorem inOrder_of_done (hsound : Scheduling.Sound t.dependencyTable final)
    (hvalid : t.validate = .ok ()) : InOrder ps := by
  intro i p hp s hs
  obtain ⟨hi, rfl⟩ := List.getElem?_eq_some_iff.1 hp
  have hi' : i < final.done.length := hall.length_eq ▸ hi
  have huser : t.primitives[final.done[i]]? = some ps[i] := hall.get hi' hi
  obtain ⟨d, hd⟩ := exists_position?
    (validate_eq_ok_iff.1 hvalid _ (List.mem_of_getElem? huser) s hs)
  have hdep : d ∈ t.dependencyTable.getD final.done[i] [] := by
    rw [getD_dependencyTable, huser]
    exact mem_dependencies.2 ⟨s, hs, hd⟩
  have hdone := hsound.ordered i _ (List.getElem?_eq_getElem hi') d hdep
  obtain ⟨j, hj, hjd⟩ := List.mem_take_iff_getElem.1 hdone
  obtain ⟨q, hq, hid⟩ := position?_eq_some hd
  have hj' : j < ps.length := by
    have := hall.length_eq
    omega
  have hqj : t.primitives[final.done[j]]? = some ps[j] := hall.get (by omega) hj'
  rw [hjd, hq] at hqj
  obtain rfl := Option.some.inj hqj
  rw [List.mem_map]
  exact ⟨ps[j], List.mem_take_iff_getElem.2 ⟨j, by omega, rfl⟩, hid⟩

/-- A run that has come to its end has reached every primitive whose inputs it has reached. -/
theorem reached_of_done (hsound : Scheduling.Sound t.dependencyTable final)
    (hend : final.ready = [] ∨ final.done.length = t.size) (hvalid : t.validate = .ok ()) :
    t.Reached ps := by
  have hps : final.done.filterMap (t.primitives[·]?) = ps := filterMap_of_forall₂ hall
  refine ⟨?_, ?_, inOrder_of_done hall hsound hvalid, ?_⟩
  · intro p hp
    obtain ⟨k, hk⟩ := List.mem_iff_getElem?.1 hp
    obtain ⟨d, -, hread⟩ := exists_left_of_forall₂ hall hk
    exact List.mem_of_getElem? hread
  · rw [← hps]
    apply hsound.done_nodup.filterMap
    intro i j p hi hj
    exact eq_of_getElem?_eq hi hj
  · intro p hp hreads
    obtain ⟨i, hi⟩ := List.mem_iff_getElem?.1 hp
    have hlt : i < t.dependencyTable.length := by
      rw [length_dependencyTable]
      exact (List.getElem?_eq_some_iff.1 hi).1
    rw [← mem_done_iff hall hi]
    rcases hend with hready | hfull
    · have hzero : Scheduling.waiting t.dependencyTable final.done i = 0 := by
        rw [Scheduling.waiting_eq_zero_iff]
        intro d hd
        rw [getD_dependencyTable, hi] at hd
        obtain ⟨s, hs, hposition⟩ := mem_dependencies.1 hd
        obtain ⟨q, hq, hid⟩ := position?_eq_some hposition
        obtain ⟨q', hq', hid'⟩ := List.mem_map.1 (hreads s hs)
        rw [mem_done_iff hall hq]
        -- the position of an identifier holds the primitive that was reached under it
        obtain ⟨k, hk⟩ := List.mem_iff_getElem?.1 hq'
        obtain ⟨_, -, hread⟩ := exists_left_of_forall₂ hall hk
        have hsame := eq_of_id_eq (List.mem_of_getElem? hread) (List.mem_of_getElem? hq)
          (hid'.trans hid.symm)
        exact hsame ▸ hq'
      simpa [hready] using (hsound.mem_iff i).2 ⟨hlt, hzero⟩
    · rw [(hsound.done_perm (by rw [hfull, length_dependencyTable])).mem_iff]
      exact List.mem_range.2 hlt

end Run

/-- What a schedule is: the primitives that the run has reached, if these are all. -/
theorem exists_reached (hvalid : t.validate = .ok ()) : ∃ final ps,
    Scheduling.run t.dependencyTable t.size (.start t.dependencyTable) = some final ∧
      List.Forall₂ (fun d p => t.primitives[d]? = some p) final.done ps ∧ t.Reached ps ∧
      t.schedule =
        if ps.length = t.size then .ok ps else .fail (.cycle (t.size - ps.length)) := by
  obtain ⟨final, hrun, hsound, hend⟩ := t.run_schedule
  have hpresent : ∀ d ∈ final.done, ∃ p, t.primitives[d]? = some p := by
    intro d hd
    have hlt := hsound.done_lt d hd
    rw [length_dependencyTable] at hlt
    exact ⟨t.primitives[d], List.getElem?_eq_getElem hlt⟩
  obtain ⟨ps, hps⟩ := Outcome.exists_mapM_eq_some hpresent
  have hall := Outcome.mapM_eq_some_iff.1 hps
  refine ⟨final, ps, hrun, hall, reached_of_done hall hsound hend hvalid, ?_⟩
  rw [schedule_of_validate hvalid, hrun, ← hall.length_eq]
  by_cases hlength : final.done.length = t.size
  · simp [Outcome.ofOption, bind, Except.bind, hlength, hps]
  · simp [Outcome.ofOption, bind, Except.bind, hlength]

namespace Reached

variable {ps : List Primitive} (h : t.Reached ps)
include h

theorem length_le : ps.length ≤ t.size := (List.subperm_of_subset h.nodup h.subset).length_le

theorem perm (hlength : ps.length = t.size) : ps.Perm t.primitives :=
  (List.subperm_of_subset h.nodup h.subset).perm_of_length_le (Nat.le_of_eq hlength.symm)

/-- Primitives of the topology in dependency order are reached. -/
theorem subset_of_inOrder {order : List Primitive} (hsubset : order ⊆ t.primitives)
    (horder : InOrder order) : order ⊆ ps := by
  intro p hp
  obtain ⟨i, hi⟩ := List.mem_iff_getElem?.1 hp
  induction i using Nat.strongRecOn generalizing p with
  | _ i ih =>
      apply h.closed p (hsubset hp)
      intro s hs
      obtain ⟨q, hq, hid⟩ := List.mem_map.1 (horder i p hi s hs)
      obtain ⟨j, hj, rfl⟩ := List.mem_take_iff_getElem.1 hq
      have hreached : order[j] ∈ ps :=
        ih j (by omega) (List.getElem_mem _) (List.getElem?_eq_getElem (by omega))
      exact List.mem_map.2 ⟨order[j], hreached, hid⟩

end Reached

theorem reached_of_schedule {order : List Primitive} (h : t.schedule = .ok order) :
    t.Reached order ∧ order.length = t.size := by
  obtain ⟨-, ps, -, -, hreached, hschedule⟩ := exists_reached (schedule_eq_ok_iff.1 h).1
  by_cases hlength : ps.length = t.size
  · rw [hschedule, if_pos hlength] at h
    obtain rfl := Except.ok.inj h
    exact ⟨hreached, hlength⟩
  · rw [hschedule, if_neg hlength] at h
    exact absurd h Outcome.fail_ne_ok

/-- A schedule holds every primitive once. -/
theorem schedule_perm {order : List Primitive} (h : t.schedule = .ok order) :
    order.Perm t.primitives := by
  obtain ⟨hreached, hlength⟩ := reached_of_schedule h
  exact hreached.perm hlength

/-- In a schedule each primitive comes after everything that it reads. -/
theorem schedule_inOrder {order : List Primitive} (h : t.schedule = .ok order) : InOrder order :=
  (reached_of_schedule h).1.ordered

/-- A topology has a schedule as soon as its primitives have some dependency order. -/
theorem exists_schedule {order : List Primitive} (hperm : order.Perm t.primitives)
    (horder : InOrder order) : ∃ schedule, t.schedule = .ok schedule := by
  have hvalid : t.validate = .ok () := by
    rw [validate_eq_ok_iff]
    intro p hp s hs
    obtain ⟨i, hi⟩ := List.mem_iff_getElem?.1 (hperm.mem_iff.2 hp)
    rw [ids, ← (hperm.map _).mem_iff]
    exact List.map_subset _ (List.take_subset _ _) (horder i p hi s hs)
  obtain ⟨-, ps, -, -, hreached, hschedule⟩ := exists_reached hvalid
  have hlength : ps.length = t.size := by
    apply Nat.le_antisymm hreached.length_le
    have hall := hreached.subset_of_inOrder hperm.subset horder
    have hnodup : order.Nodup := hperm.nodup_iff.2 (t.distinct.of_map _)
    rw [size, ← hperm.length_eq]
    exact (List.subperm_of_subset hnodup hall).length_le
  exact ⟨ps, by rw [hschedule, if_pos hlength]⟩

/-- A topology in dependency order has a schedule. -/
theorem schedule_of_inOrder (h : InOrder t.primitives) : ∃ order, t.schedule = .ok order :=
  exists_schedule (.refl _) h

end Topology

end TensorLowering
