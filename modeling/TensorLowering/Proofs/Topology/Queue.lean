import Mathlib.Data.Finset.Lattice.Fold
import Mathlib.Order.Lattice.Nat
import TensorLowering.Proofs.Topology.Schedule

/-!
# The queue behind a schedule

Primitives are scheduled in the order in which they become ready: by the turn of the last primitive
that they read, and those of one turn in insertion order. Primitives that read the same therefore
keep their insertion order. Other primitives need not, even if the insertion order is a dependency
order: a primitive without inputs overtakes everything that was added before it and reads something.

## Main statements

* `Scheduling.inTurn_of_run`: at every moment the queue is in that order.
* `Topology.schedule_stable`: primitives that read the same keep their insertion order.
* `Topology.schedule_eq_primitives_iff`: when the schedule is the insertion order itself.
-/

namespace TensorLowering

namespace Scheduling

variable {table : List (List Nat)}

/-- The turn after which everything is scheduled that `user` reads, zero when it reads nothing. -/
def readyAfter (table : List (List Nat)) (done : List Nat) (user : Nat) : Nat :=
  (table.getD user []).toFinset.sup fun d => done.idxOf d + 1

theorem readyAfter_append {done more : List Nat} {user : Nat}
    (h : ∀ d ∈ table.getD user [], d ∈ done) :
    readyAfter table (done ++ more) user = readyAfter table done user := by
  apply Finset.sup_congr rfl
  intro d hd
  rw [List.idxOf_append_of_mem (h d (List.mem_toFinset.1 hd))]

theorem readyAfter_le {done : List Nat} {user : Nat} (h : ∀ d ∈ table.getD user [], d ∈ done) :
    readyAfter table done user ≤ done.length := by
  apply Finset.sup_le
  intro d hd
  exact List.idxOf_lt_length_of_mem (h d (List.mem_toFinset.1 hd))

/-- What reads the position that was scheduled last has been waiting for it. -/
theorem readyAfter_snoc {done : List Nat} {position user : Nat} (hnew : position ∉ done)
    (hdep : position ∈ table.getD user []) (h : ∀ d ∈ table.getD user [], d ∈ done ++ [position]) :
    readyAfter table (done ++ [position]) user = done.length + 1 := by
  apply Nat.le_antisymm
  · simpa using readyAfter_le h
  · have hlast : (done ++ [position]).idxOf position = done.length := by
      simp [List.idxOf_append_of_notMem hnew]
    calc done.length + 1 = (done ++ [position]).idxOf position + 1 := by rw [hlast]
      _ ≤ readyAfter table (done ++ [position]) user :=
        Finset.le_sup (f := fun d => (done ++ [position]).idxOf d + 1) (List.mem_toFinset.2 hdep)

/-- Scheduled and ready positions are in the order in which they became ready, those of one turn in
insertion order. -/
def InTurn (table : List (List Nat)) (s : Scheduling) : Prop :=
  (s.done ++ s.ready).Pairwise fun u v =>
    readyAfter table s.done u < readyAfter table s.done v ∨
      readyAfter table s.done u = readyAfter table s.done v ∧ u < v

theorem inTurn_start (table : List (List Nat)) : InTurn table (start table) := by
  have hzero : ∀ user ∈ (start table).ready, readyAfter table [] user = 0 := by
    intro user huser
    have hmem := ((sound_start table).mem_iff user).1 (List.mem_append_right _ huser)
    apply Nat.le_zero.1
    exact readyAfter_le (waiting_eq_zero_iff.1 hmem.2)
  have hascending : (start table).ready.Pairwise (· < ·) := List.pairwise_lt_range.filter _
  apply hascending.imp_of_mem
  intro u v hu hv hlt
  exact .inr ⟨(hzero u hu).trans (hzero v hv).symm, hlt⟩

/-- A turn keeps the queue in order: what becomes ready does so after everything before it. -/
theorem InTurn.turn {s next : Scheduling} {position : Nat} (hs : Sound table s)
    (hnext : Sound table next) (hturn : Turn table position s next) (h : InTurn table s) :
    InTurn table next := by
  have hnew : position ∉ s.done := by
    intro hmem
    have hnodup := hturn.done ▸ hnext.done_nodup
    exact (List.nodup_append.1 hnodup).2.2 _ hmem _ (List.mem_singleton_self _) rfl
  have hold : ∀ user ∈ s.done ++ s.ready, ∀ d ∈ table.getD user [], d ∈ s.done := by
    intro user huser
    exact waiting_eq_zero_iff.1 ((hs.mem_iff user).1 huser).2
  have hreleased : ∀ user ∈ (users table position).filter (fun user => s.pending[user]? = some 1),
      readyAfter table next.done user = s.done.length + 1 := by
    intro user huser
    have hmem : user ∈ next.done ++ next.ready := by
      rw [hturn.queue]
      exact List.mem_append_right _ huser
    rw [hturn.done]
    apply readyAfter_snoc hnew (hs.mem_released_iff.1 huser).2.1
    rw [← hturn.done]
    exact waiting_eq_zero_iff.1 ((hnext.mem_iff user).1 hmem).2
  rw [InTurn, hturn.queue, List.pairwise_append]
  refine ⟨?_, ?_, ?_⟩
  · apply h.imp_of_mem
    intro u v hu hv
    rw [hturn.done, readyAfter_append (hold u hu), readyAfter_append (hold v hv)]
    exact id
  · have hascending : ((users table position).filter fun user => s.pending[user]? = some 1).Pairwise
        (· < ·) := (List.pairwise_lt_range.filter _).filter _
    apply hascending.imp_of_mem
    intro u v hu hv hlt
    exact .inr ⟨(hreleased u hu).trans (hreleased v hv).symm, hlt⟩
  · intro u hu v hv
    refine .inl ?_
    calc readyAfter table next.done u = readyAfter table s.done u := by
          rw [hturn.done, readyAfter_append (hold u hu)]
      _ ≤ s.done.length := readyAfter_le (hold u hu)
      _ < readyAfter table next.done v := by rw [hreleased v hv]; exact Nat.lt_succ_self _

theorem inTurn_of_run (hrows : ∀ user, (table.getD user []).Nodup) {turns : Nat}
    {final : Scheduling} (hrun : run table turns (start table) = some final) :
    InTurn table final := by
  obtain ⟨other, hother, -, hqueue, -⟩ :=
    Sound.run hrows InTurn.turn (sound_start table) (inTurn_start table) turns
  obtain rfl := Option.some.inj (hother.symm.trans hrun)
  exact hqueue

/-- The largest position that `user` reads, counted from one; zero when it reads nothing. -/
def reach (table : List (List Nat)) (user : Nat) : Nat := (table.getD user []).toFinset.sup (· + 1)

/-- What reads only positions that are scheduled in their places is ready after the largest. -/
theorem readyAfter_eq_reach {done : List Nat} {k user : Nat} (hnodup : done.Nodup)
    (hplaces : ∀ d < k, done[d]? = some d) (h : ∀ d ∈ table.getD user [], d < k) :
    readyAfter table done user = reach table user := by
  apply Finset.sup_congr rfl
  intro d hd
  obtain ⟨hlt, heq⟩ := List.getElem?_eq_some_iff.1 (hplaces d (h d (List.mem_toFinset.1 hd)))
  rw [← heq, hnodup.idxOf_getElem, heq]

/-- Behind positions that are scheduled in their places come larger positions only. -/
theorem le_of_places {done : List Nat} {k i v : Nat} (hnodup : done.Nodup)
    (hplaces : ∀ d < k, done[d]? = some d) (hi : k ≤ i) (hv : done[i]? = some v) : k ≤ v := by
  by_contra hvk
  have hlt : i < done.length := (List.getElem?_eq_some_iff.1 hv).1
  have hsame := (List.getElem?_inj hlt hnodup).1 (hv.trans (hplaces v (by omega)).symm)
  omega

/-- What comes right behind them reads no other positions. -/
theorem Sound.lt_of_places {s : Scheduling} (hs : Sound table s) {k v : Nat}
    (hplaces : ∀ d < k, s.done[d]? = some d) (hv : s.done[k]? = some v) :
    ∀ d ∈ table.getD v [], d < k := by
  intro d hd
  obtain ⟨i, hi, hid⟩ := List.mem_take_iff_getElem.1 (hs.ordered k v hv d hd)
  have hplace := (hplaces i (by omega)).symm.trans (List.getElem?_eq_getElem (by omega))
  rw [hid] at hplace
  have := Option.some.inj hplace
  omega

/-- The next position comes in its place if it reads smaller positions only and none after it reads
less far: one that came instead would have been ready later. -/
theorem place_of_places {final : Scheduling} (hs : Sound table final) (hqueue : InTurn table final)
    (hlength : final.done.length = table.length) {k : Nat} (hk : k < table.length)
    (hplaces : ∀ d < k, final.done[d]? = some d) (hbefore : ∀ d ∈ table.getD k [], d < k)
    (hmono : ∀ v, k < v → v < table.length → reach table k ≤ reach table v) :
    final.done[k]? = some k := by
  have hnodup := hs.done_nodup
  have hplace : k < final.done.length := by omega
  obtain ⟨v, hv⟩ : ∃ v, final.done[k]? = some v := ⟨_, List.getElem?_eq_getElem hplace⟩
  obtain ⟨l, hl⟩ := List.mem_iff_getElem?.1 ((hs.done_perm hlength).mem_iff.2 (List.mem_range.2 hk))
  have hkv : k ≤ v := le_of_places hnodup hplaces (Nat.le_refl k) hv
  have hkl : k ≤ l := by
    by_contra hlk
    have := Option.some.inj ((hplaces l (by omega)).symm.trans hl)
    omega
  rcases hkl.eq_or_lt with rfl | hkl
  · exact hl
  -- otherwise `v` stands before `k`, and was ready before it
  obtain ⟨hlt, heq⟩ := List.getElem?_eq_some_iff.1 hl
  have hturn := List.pairwise_iff_getElem.1 (hqueue.sublist (List.sublist_append_left _ _))
    k l hplace hlt hkl
  have hvalue : final.done[k] = v := (List.getElem?_eq_some_iff.1 hv).2
  rw [heq, hvalue, readyAfter_eq_reach hnodup hplaces (hs.lt_of_places hplaces hv),
    readyAfter_eq_reach hnodup hplaces hbefore] at hturn
  have hne : k ≠ v := by
    rintro rfl
    have := (List.getElem?_inj hplace hnodup).1 (hv.trans hl.symm)
    omega
  have := hmono v (by omega) (hs.done_lt v (List.mem_of_getElem? hv))
  omega

/-- When the positions are scheduled in their places: each reads smaller positions only, and none
reads less far than one before it. -/
theorem done_eq_range_iff {final : Scheduling} (hs : Sound table final)
    (hqueue : InTurn table final) (hlength : final.done.length = table.length) :
    final.done = List.range table.length ↔
      (∀ user < table.length, ∀ d ∈ table.getD user [], d < user) ∧
        ∀ u v, u < v → v < table.length → reach table u ≤ reach table v := by
  have hturns := List.pairwise_iff_getElem.1 (hqueue.sublist (List.sublist_append_left _ _))
  constructor
  · intro hdone
    have hbefore : ∀ user < table.length, ∀ d ∈ table.getD user [], d < user := by
      intro user huser d hd
      have hmem := hs.ordered user user (by simp [hdone, huser]) d hd
      rw [hdone, List.take_range, List.mem_range] at hmem
      exact hmem.trans_le (Nat.min_le_left _ _)
    have hreach : ∀ user < table.length, readyAfter table final.done user = reach table user := by
      intro user huser
      apply readyAfter_eq_reach hs.done_nodup (k := user) _ (hbefore user huser)
      intro d hd
      simp [hdone, hd.trans huser]
    refine ⟨hbefore, ?_⟩
    intro u v hlt hv
    have := hturns u v (by omega) (by omega) hlt
    simp only [hdone, List.getElem_range] at this
    rw [← hdone, hreach u (hlt.trans hv), hreach v hv] at this
    omega
  · rintro ⟨hbefore, hmono⟩
    have hplaces : ∀ k < table.length, final.done[k]? = some k := by
      intro k hk
      induction k using Nat.strongRecOn with
      | _ k ih =>
          apply place_of_places hs hqueue hlength hk (fun d hd => ih d hd (hd.trans hk))
          · exact hbefore k hk
          · exact fun v => hmono k v
    apply List.ext_getElem?
    intro k
    by_cases hk : k < table.length
    · rw [hplaces k hk, List.getElem?_range hk]
    · simp [hk, hlength]

end Scheduling

namespace Topology

variable {t : Topology}

/-- The primitives stand at the positions from zero on, and nowhere else. -/
theorem forall₂_range (t : Topology) :
    List.Forall₂ (fun d p => t.primitives[d]? = some p) (List.range t.size) t.primitives := by
  apply forall₂_of_getElem? (by simp [size])
  intro i d p hd hp
  obtain ⟨hi, rfl⟩ := List.getElem?_eq_some_iff.1 hd
  rwa [List.getElem_range]

theorem biUnique_position (t : Topology) :
    Relator.BiUnique fun (d : Nat) p => t.primitives[d]? = some p := by
  constructor
  · intro d e p hd he
    exact eq_of_getElem?_eq hd he
  · intro d p q hp hq
    exact Option.some.inj (hp.symm.trans hq)

/-- Positions list the primitives in insertion order exactly when they ascend from zero. -/
theorem eq_primitives_iff {positions : List Nat} {ps : List Primitive}
    (hall : List.Forall₂ (fun d p => t.primitives[d]? = some p) positions ps) :
    ps = t.primitives ↔ positions = List.range t.size := by
  constructor
  · rintro rfl
    exact t.biUnique_position.forall₂.1 hall t.forall₂_range
  · rintro rfl
    exact t.biUnique_position.forall₂.2 hall t.forall₂_range

/-- The run behind a schedule: its positions, queued in order. -/
theorem exists_queued {order : List Primitive} (h : t.schedule = .ok order) : ∃ final,
    List.Forall₂ (fun d p => t.primitives[d]? = some p) final.done order ∧
      Scheduling.Sound t.dependencyTable final ∧ Scheduling.InTurn t.dependencyTable final ∧
      final.done.length = t.dependencyTable.length := by
  obtain ⟨-, final, hrun, hlength, hall⟩ := schedule_eq_ok_iff.1 h
  obtain ⟨other, hother, hsound, -⟩ := t.run_schedule
  obtain rfl := Option.some.inj (hother.symm.trans hrun)
  exact ⟨other, hall, hsound, Scheduling.inTurn_of_run nodup_dependencyTable hrun,
    hlength.trans length_dependencyTable.symm⟩

/-- Primitives with the same inputs, in whatever order and number, read the same positions. -/
theorem mem_dependencies_congr {p q : Primitive}
    (h : ∀ id, id ∈ p.inputs.map Source.id ↔ id ∈ q.inputs.map Source.id) (d : Nat) :
    d ∈ t.dependencies p ↔ d ∈ t.dependencies q := by
  simp only [List.mem_map] at h
  simp only [mem_dependencies]
  constructor
  · rintro ⟨s, hs, hd⟩
    obtain ⟨s', hs', hid⟩ := (h s.id).1 ⟨s, hs, rfl⟩
    exact ⟨s', hs', hid ▸ hd⟩
  · rintro ⟨s, hs, hd⟩
    obtain ⟨s', hs', hid⟩ := (h s.id).2 ⟨s, hs, rfl⟩
    exact ⟨s', hs', hid ▸ hd⟩

/-- Primitives that read the same keep their insertion order. -/
theorem schedule_stable {order : List Primitive} (h : t.schedule = .ok order) :
    order.Pairwise fun p q =>
      (∀ id, id ∈ p.inputs.map Source.id ↔ id ∈ q.inputs.map Source.id) →
        t.primitives.idxOf p < t.primitives.idxOf q := by
  obtain ⟨final, hall, -, hqueue, -⟩ := exists_queued h
  have hturns := List.pairwise_iff_getElem.1 (hqueue.sublist (List.sublist_append_left _ _))
  have hindex : ∀ {i : Nat} {p : Primitive}, t.primitives[i]? = some p →
      t.primitives.idxOf p = i := by
    intro i p hp
    obtain ⟨hi, rfl⟩ := List.getElem?_eq_some_iff.1 hp
    exact (t.distinct.of_map _).idxOf_getElem i hi
  rw [List.pairwise_iff_getElem]
  intro i j hi hj hlt hsame
  have hi' : i < final.done.length := hall.length_eq ▸ hi
  have hj' : j < final.done.length := hall.length_eq ▸ hj
  have hp : t.primitives[final.done[i]]? = some order[i] := hall.get hi' hi
  have hq : t.primitives[final.done[j]]? = some order[j] := hall.get hj' hj
  have hready : Scheduling.readyAfter t.dependencyTable final.done final.done[i] =
      Scheduling.readyAfter t.dependencyTable final.done final.done[j] := by
    apply Finset.sup_congr _ fun _ _ => rfl
    ext d
    rw [getD_dependencyTable, getD_dependencyTable, hp, hq]
    simpa using mem_dependencies_congr hsame d
  rw [hindex hp, hindex hq]
  rcases hturns i j hi' hj' hlt with hless | ⟨-, hless⟩
  · omega
  · exact hless

/-- The last place that a primitive reads from, counted from one; zero when it reads nothing. -/
def reach (t : Topology) (p : Primitive) : Nat := (t.dependencies p).toFinset.sup (· + 1)

theorem reach_dependencyTable {i : Nat} {p : Primitive} (hp : t.primitives[i]? = some p) :
    Scheduling.reach t.dependencyTable i = t.reach p := by
  rw [Scheduling.reach, getD_dependencyTable, hp]
  rfl

/-- In a dependency order every primitive reads smaller positions. -/
theorem lt_of_mem_dependencies (horder : InOrder t.primitives) {i d : Nat} {p : Primitive}
    (hp : t.primitives[i]? = some p) (hd : d ∈ t.dependencies p) : d < i := by
  obtain ⟨s, hs, hposition⟩ := mem_dependencies.1 hd
  obtain ⟨q, hq, hid⟩ := position?_eq_some hposition
  obtain ⟨q', hq', hid'⟩ := List.mem_map.1 (horder i p hp s hs)
  obtain ⟨j, hj, rfl⟩ := List.mem_take_iff_getElem.1 hq'
  have hread : t.primitives[j]? = some t.primitives[j] := List.getElem?_eq_getElem (by omega)
  have hsame := eq_of_id_eq (List.mem_of_getElem? hread) (List.mem_of_getElem? hq)
    (hid'.trans hid.symm)
  have := eq_of_getElem?_eq (hsame ▸ hread) hq
  omega

/-- When primitives are scheduled exactly as they were added: each was added after everything that
it reads, and after every primitive that does not read as far. -/
theorem schedule_eq_primitives_iff (t : Topology) :
    t.schedule = .ok t.primitives ↔
      InOrder t.primitives ∧ t.primitives.Pairwise fun p q => t.reach p ≤ t.reach q := by
  have hmono : (∀ u v, u < v → v < t.dependencyTable.length →
        Scheduling.reach t.dependencyTable u ≤ Scheduling.reach t.dependencyTable v) ↔
      t.primitives.Pairwise fun p q => t.reach p ≤ t.reach q := by
    rw [List.pairwise_iff_getElem, length_dependencyTable]
    have hreach : ∀ i (hi : i < t.primitives.length),
        Scheduling.reach t.dependencyTable i = t.reach t.primitives[i] :=
      fun i hi => reach_dependencyTable (List.getElem?_eq_getElem hi)
    constructor
    · intro h i j hi hj hlt
      exact hreach i hi ▸ hreach j hj ▸ h i j hlt hj
    · intro h i j hlt hj
      exact hreach i (hlt.trans hj) ▸ hreach j hj ▸ h i j (hlt.trans hj) hj hlt
  rw [← hmono]
  constructor
  · intro h
    obtain ⟨final, hall, hsound, hqueue, hlength⟩ := exists_queued h
    have hdone : final.done = List.range t.dependencyTable.length :=
      length_dependencyTable ▸ (eq_primitives_iff hall).1 rfl
    exact ⟨schedule_inOrder h, ((Scheduling.done_eq_range_iff hsound hqueue hlength).1 hdone).2⟩
  · rintro ⟨horder, hreach⟩
    obtain ⟨order, h⟩ := schedule_of_inOrder horder
    obtain ⟨final, hall, hsound, hqueue, hlength⟩ := exists_queued h
    have hbefore : ∀ user < t.dependencyTable.length,
        ∀ d ∈ t.dependencyTable.getD user [], d < user := by
      intro user huser d hd
      rw [length_dependencyTable] at huser
      have hp : t.primitives[user]? = some t.primitives[user] := List.getElem?_eq_getElem huser
      rw [getD_dependencyTable, hp] at hd
      exact lt_of_mem_dependencies horder hp hd
    have hdone := (Scheduling.done_eq_range_iff hsound hqueue hlength).2 ⟨hbefore, hreach⟩
    rw [h, (eq_primitives_iff hall).2 (length_dependencyTable ▸ hdone)]

/-- The parameter `a`, a primitive `b` that reads it, and another parameter `c`, added in this
order. -/
def overtaken : Topology :=
  ofPrimitives
    [⟨"a", .inputLayout (.ofSizes .f32 [2]), [], "a", "Parameter"⟩,
      ⟨"b", .activation .erf, [⟨"a", 0⟩], "", ""⟩,
      ⟨"c", .inputLayout (.ofSizes .f32 [2]), [], "c", "Parameter"⟩] (by decide)

/-- A dependency order need not be kept: `c` waits for nothing and is scheduled before `b`. -/
theorem schedule_overtaken_ne :
    InOrder overtaken.primitives ∧ overtaken.schedule ≠ .ok overtaken.primitives := by
  constructor
  · intro i p hp s hs
    match i, hp with
    | 0, rfl => simp at hs
    | 1, rfl => simp_all [overtaken, ofPrimitives]
    | 2, rfl => simp at hs
  · decide

end Topology

end TensorLowering
