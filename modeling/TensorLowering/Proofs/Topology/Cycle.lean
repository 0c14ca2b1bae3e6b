import Mathlib.Data.Set.Card
import Mathlib.Logic.Relation
import Mathlib.Order.WellFounded
import TensorLowering.Proofs.Topology.Queue

/-!
# Schedules and cycles

A topology that reads nothing unknown has a schedule exactly when no primitive depends on itself.
Otherwise the run reaches all but the primitives that lie on a cycle or depend on one, and the error
reports how many these are.

## Main statements

* `Topology.Reached.mem_iff`: what a run reaches.
* `Topology.schedule_trichotomy`: an unknown input, a cycle, or a schedule.
-/

namespace TensorLowering

namespace Topology

open Relation

variable {t : Topology} {p q : Primitive} {ps : List Primitive}

/-- Every input names a primitive. -/
def Resolves (t : Topology) : Prop := ∀ p ∈ t.primitives, ∀ s ∈ p.inputs, s.id ∈ t.ids

/-- One primitive reads the other. -/
def DependsOn (t : Topology) (p q : Primitive) : Prop :=
  p ∈ t.primitives ∧ q ∈ t.primitives ∧ q.id ∈ p.inputs.map Source.id

/-- The primitive lies on a cycle or depends on one, directly or not. -/
def WaitsForCycle (t : Topology) (p : Primitive) : Prop :=
  ∃ q, ReflTransGen t.DependsOn p q ∧ TransGen t.DependsOn q q

/-- Some primitive depends on itself, directly or not. -/
def IsCyclic (t : Topology) : Prop := ∃ p, TransGen t.DependsOn p p

theorem isCyclic_iff : t.IsCyclic ↔ ∃ p, t.WaitsForCycle p :=
  ⟨fun ⟨p, h⟩ => ⟨p, p, .refl, h⟩, fun ⟨_, q, _, h⟩ => ⟨q, h⟩⟩

theorem WaitsForCycle.mem (h : t.WaitsForCycle p) : p ∈ t.primitives := by
  obtain ⟨q, hpath, hcycle⟩ := h
  obtain ⟨_, hstep, -⟩ := TransGen.head'_iff.1 (TransGen.trans_right hpath hcycle)
  exact hstep.1

theorem WaitsForCycle.of_dependsOn (h : t.DependsOn p q) (hq : t.WaitsForCycle q) :
    t.WaitsForCycle p := by
  obtain ⟨r, hpath, hcycle⟩ := hq
  exact ⟨r, .head h hpath, hcycle⟩

/-- Away from the cycles, going from a primitive to what it reads comes to an end. -/
theorem wellFounded_dependsOn (t : Topology) :
    WellFounded fun q p : { p // p ∈ t.primitives ∧ ¬ t.WaitsForCycle p } =>
      TransGen t.DependsOn p q := by
  have hfinite : Finite { p // p ∈ t.primitives ∧ ¬ t.WaitsForCycle p } :=
    (t.primitives.finite_toSet.subset fun _ h => h.1).to_subtype
  have htrans : IsTrans { p // p ∈ t.primitives ∧ ¬ t.WaitsForCycle p }
      fun q p => TransGen t.DependsOn p q := ⟨fun _ _ _ hqp hrq => hrq.trans hqp⟩
  have hirrefl : Std.Irrefl fun q p : { p // p ∈ t.primitives ∧ ¬ t.WaitsForCycle p } =>
      TransGen t.DependsOn p q := ⟨fun p hcycle => p.2.2 ⟨p, .refl, hcycle⟩⟩
  exact Finite.wellFounded_of_trans_of_irrefl _

namespace Reached

variable (h : t.Reached ps)
include h

/-- What a reached primitive reads was reached before it. -/
theorem of_dependsOn (hp : p ∈ ps) (hstep : t.DependsOn p q) :
    q ∈ ps ∧ ps.idxOf q < ps.idxOf p := by
  obtain ⟨-, hq, hid⟩ := hstep
  obtain ⟨s, hs, hsid⟩ := List.mem_map.1 hid
  have hread : ps[ps.idxOf p]? = some p := by
    simp [List.idxOf_lt_length_of_mem hp]
  obtain ⟨q', hq', hid'⟩ := List.mem_map.1 (h.ordered _ p hread s hs)
  have hbefore : q ∈ ps.take (ps.idxOf p) := by
    have hsame := eq_of_id_eq (h.subset (List.mem_of_mem_take hq')) hq (hid'.trans hsid)
    exact hsame ▸ hq'
  obtain ⟨j, hj, rfl⟩ := List.mem_take_iff_getElem.1 hbefore
  rw [h.nodup.idxOf_getElem]
  exact ⟨List.getElem_mem _, by omega⟩

theorem of_path (hp : p ∈ ps) (hpath : TransGen t.DependsOn p q) :
    q ∈ ps ∧ ps.idxOf q < ps.idxOf p := by
  induction hpath with
  | single hstep => exact h.of_dependsOn hp hstep
  | tail _ hstep ih =>
      obtain ⟨hmem, hlt⟩ := ih
      obtain ⟨hmem', hlt'⟩ := h.of_dependsOn hmem hstep
      exact ⟨hmem', hlt'.trans hlt⟩

/-- A primitive is reached exactly when it neither lies on a cycle nor depends on one. -/
theorem mem_iff (hresolves : t.Resolves) : p ∈ ps ↔ p ∈ t.primitives ∧ ¬ t.WaitsForCycle p := by
  constructor
  · intro hp
    refine ⟨h.subset hp, ?_⟩
    rintro ⟨q, hpath, hcycle⟩
    have hq : q ∈ ps := by
      rcases reflTransGen_iff_eq_or_transGen.1 hpath with rfl | hpath
      · exact hp
      · exact (h.of_path hp hpath).1
    exact absurd (h.of_path hq hcycle).2 (Nat.lt_irrefl _)
  · intro hp
    -- by induction over what the primitive reads
    induction hsub : (⟨p, hp⟩ : { p // p ∈ t.primitives ∧ ¬ t.WaitsForCycle p }) using
      t.wellFounded_dependsOn.induction generalizing p with
    | _ x ih =>
        subst hsub
        apply h.closed p hp.1
        intro s hs
        obtain ⟨q, hq, hid⟩ := List.mem_map.1 (hresolves p hp.1 s hs)
        have hstep : t.DependsOn p q := ⟨hp.1, hq, List.mem_map.2 ⟨s, hs, hid.symm⟩⟩
        have hfree : q ∈ t.primitives ∧ ¬ t.WaitsForCycle q :=
          ⟨hq, fun hwaits => hp.2 (hwaits.of_dependsOn hstep)⟩
        exact List.mem_map.2 ⟨q, ih ⟨q, hfree⟩ (.single hstep) hfree rfl, hid⟩

/-- What is not reached are the primitives that lie on a cycle or depend on one. -/
theorem ncard_waitsForCycle (hresolves : t.Resolves) :
    {p | t.WaitsForCycle p}.ncard = t.size - ps.length := by
  have hset : {p | t.WaitsForCycle p} = ↑(t.primitives.toFinset \ ps.toFinset) := by
    ext p
    simp only [Set.mem_ofPred_eq, Finset.coe_sdiff, List.coe_toFinset, Set.mem_sdiff,
      h.mem_iff hresolves]
    exact ⟨fun hp => ⟨hp.mem, fun hfree => hfree.2 hp⟩, fun ⟨hp, hfree⟩ => by_contra fun hwaits =>
      hfree ⟨hp, hwaits⟩⟩
  have hsubset : ps.toFinset ⊆ t.primitives.toFinset := by
    intro p hp
    exact List.mem_toFinset.2 (h.subset (List.mem_toFinset.1 hp))
  rw [hset, Set.ncard_coe_finset, Finset.card_sdiff_of_subset hsubset,
    List.toFinset_card_of_nodup (t.distinct.of_map _), List.toFinset_card_of_nodup h.nodup, size]

theorem isCyclic_iff (hresolves : t.Resolves) : t.IsCyclic ↔ ps.length ≠ t.size := by
  have hfinite : {p | t.WaitsForCycle p}.Finite :=
    t.primitives.finite_toSet.subset fun _ hp => hp.mem
  have hle := h.length_le
  calc t.IsCyclic ↔ {p | t.WaitsForCycle p}.Nonempty := Topology.isCyclic_iff
    _ ↔ 0 < {p | t.WaitsForCycle p}.ncard := (Set.ncard_pos hfinite).symm
    _ ↔ ps.length ≠ t.size := by
      rw [h.ncard_waitsForCycle hresolves]
      omega

end Reached

/-- An input that names no primitive is reported. -/
theorem schedule_of_not_resolves (h : ¬ t.Resolves) :
    ∃ p s, t.schedule = .fail (.missingInput p s) := by
  have hinvalid : t.validate ≠ .ok () := mt validate_eq_ok_iff.1 h
  cases hunresolved : t.unresolved with
  | nil => exact absurd (by simp [validate, hunresolved]) hinvalid
  | cons pair rest =>
      have hvalidate : t.validate = .error (.missingInput pair.1.id pair.2.id) := by
        simp [validate, hunresolved]
      exact ⟨pair.1.id, pair.2.id, by simp [schedule, hvalidate, bind, Except.bind, Outcome.fail]⟩

/-- A topology that resolves has a schedule, or an error that counts what waits for a cycle. -/
theorem schedule_of_resolves (h : t.Resolves) :
    (t.IsCyclic ∧ t.schedule = .fail (.cycle {p | t.WaitsForCycle p}.ncard)) ∨
      (¬ t.IsCyclic ∧ ∃ order, t.schedule = .ok order) := by
  obtain ⟨-, ps, -, -, hreached, hschedule⟩ := exists_reached (validate_eq_ok_iff.2 h)
  rw [hreached.isCyclic_iff h, hreached.ncard_waitsForCycle h, hschedule]
  by_cases hlength : ps.length = t.size
  · exact .inr ⟨not_not.2 hlength, ps, if_pos hlength⟩
  · exact .inl ⟨hlength, if_neg hlength⟩

/-- A schedule fails for an unknown input, for a cycle, and for nothing else; otherwise it lists
every primitive once, each after everything that it reads and those that read the same in insertion
order. No counter is ever taken below zero. -/
theorem schedule_trichotomy (t : Topology) :
    ((∃ p s, t.schedule = .fail (.missingInput p s)) ↔ ¬ t.Resolves) ∧
      (∀ remaining, t.schedule = .fail (.cycle remaining) ↔
        t.Resolves ∧ t.IsCyclic ∧ remaining = {p | t.WaitsForCycle p}.ncard) ∧
      (t.Resolves → ¬ t.IsCyclic → ∃ order, t.schedule = .ok order ∧
        order.Perm t.primitives ∧ InOrder order ∧ order.Pairwise fun p q =>
          (∀ id, id ∈ p.inputs.map Source.id ↔ id ∈ q.inputs.map Source.id) →
            t.primitives.idxOf p < t.primitives.idxOf q) ∧
      ∃ final,
        Scheduling.run t.dependencyTable t.size (.start t.dependencyTable) = some final := by
  refine ⟨⟨?_, schedule_of_not_resolves⟩, ?_, ?_, ?_⟩
  · rintro ⟨p, s, hfail⟩ hresolves
    obtain ⟨-, hcycle⟩ | ⟨-, order, horder⟩ := schedule_of_resolves hresolves
    · simpa [Outcome.fail] using hfail.symm.trans hcycle
    · exact Outcome.fail_ne_ok (hfail.symm.trans horder)
  · intro remaining
    constructor
    · intro hfail
      have hresolves : t.Resolves := by
        by_contra hunknown
        obtain ⟨p, s, hmissing⟩ := schedule_of_not_resolves hunknown
        simpa [Outcome.fail] using hfail.symm.trans hmissing
      obtain ⟨hcyclic, hcycle⟩ | ⟨-, order, horder⟩ := schedule_of_resolves hresolves
      · exact ⟨hresolves, hcyclic, by simpa [Outcome.fail] using hfail.symm.trans hcycle⟩
      · exact absurd (hfail.symm.trans horder) Outcome.fail_ne_ok
    · rintro ⟨hresolves, hcyclic, rfl⟩
      obtain ⟨-, hcycle⟩ | ⟨hacyclic, -⟩ := schedule_of_resolves hresolves
      · exact hcycle
      · exact absurd hcyclic hacyclic
  · intro hresolves hacyclic
    obtain ⟨hcyclic, -⟩ | ⟨-, order, h⟩ := schedule_of_resolves hresolves
    · exact absurd hcyclic hacyclic
    · exact ⟨order, h, schedule_perm h, schedule_inOrder h, schedule_stable h⟩
  · obtain ⟨final, hrun, -⟩ := t.run_schedule
    exact ⟨final, hrun⟩

/-- Two primitives that read each other, between one that reads nothing and one that reads both. -/
def knot : Topology :=
  ofPrimitives
    [⟨"a", .activation .erf, [], "", ""⟩,
      ⟨"b", .activation .erf, [⟨"c", 0⟩, ⟨"c", 0⟩], "", ""⟩,
      ⟨"c", .activation .erf, [⟨"a", 0⟩, ⟨"b", 0⟩], "", ""⟩,
      ⟨"d", .activation .erf, [⟨"b", 0⟩, ⟨"c", 0⟩], "", ""⟩] (by decide)

/-- All but one of the primitives wait for the cycle; without a cycle there is a schedule. -/
theorem schedule_knot : knot.schedule = .fail (.cycle 3) ∧ knot.IsCyclic ∧
    {p | knot.WaitsForCycle p}.ncard = 3 ∧ overtaken.Resolves ∧ ¬ overtaken.IsCyclic ∧
    ∃ order, overtaken.schedule = .ok order ∧ InOrder order := by
  have hcycle : knot.schedule = .fail (.cycle 3) := by decide
  obtain ⟨-, hknot, -, -⟩ := schedule_trichotomy knot
  obtain ⟨-, hcyclic, hcount⟩ := (hknot 3).1 hcycle
  have hresolves : overtaken.Resolves := by
    unfold Resolves
    decide
  obtain ⟨-, hovertaken, hschedule, -⟩ := schedule_trichotomy overtaken
  have hacyclic : ¬ overtaken.IsCyclic := by
    intro hcyclic
    have hfail := (hovertaken _).2 ⟨hresolves, hcyclic, rfl⟩
    have hscheduled : overtaken.schedule.toBool = true := by decide
    rw [hfail] at hscheduled
    cases hscheduled
  obtain ⟨order, horder, -, hinOrder, -⟩ := hschedule hresolves hacyclic
  exact ⟨hcycle, hcyclic, hcount.symm, hresolves, hacyclic, order, horder, hinOrder⟩

end Topology

end TensorLowering
