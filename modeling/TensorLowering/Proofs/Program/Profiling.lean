import TensorLowering.Proofs.Profile
import TensorLowering.Proofs.Program.Outputs

/-!
# Profiled runs

A profiled run computes what any other run does. Whatever it ends with, it leaves the entries of the
profile in place; if it succeeds, an entry says nothing of the runs before it.

## Main statements

* `Program.map_cleared_executeProfiled`: what a run keeps of a profile.
* `Program.entries_executeProfiled`: what a run that succeeds stores.
-/

namespace TensorLowering

namespace Primitive

/-- What a profile says about a primitive that has not run. -/
def entry (p : Primitive) : ProfileEntry := .new p.id p.originType p.originName

/-- What a run stores about a primitive: reshapes only pass their input on. -/
def update (p : Primitive) (time : Nat) : Profile.Update :=
  ⟨p.id, if p.payload.isReshape then .optimizedOut else .executed, time⟩

/-- What a profile says about a primitive that has run. -/
def entryAfter (p : Primitive) (time : Nat) : ProfileEntry :=
  p.entry.ran (if p.payload.isReshape then .optimizedOut else .executed) time

end Primitive

/-- The primitives that profiles list: all but the constants, in insertion order. -/
def Topology.profiled (t : Topology) : List Primitive :=
  t.primitives.filter fun p => !p.payload.isData

namespace Program

variable {program : Program} {erf : ErrorFunction} {inputs : NameMap Tensor} {elapsed : Nat → Nat}
  {profile : Profile}

/-- The slot of the step with an identifier. -/
def slot (program : Program) (id : String) : Nat := program.steps.findIdx (·.id == id)

/-- What a run stores when it gets through the first `count` steps. -/
def updates (program : Program) (count : Nat) (elapsed : Nat → Nat) : List Profile.Update :=
  (program.steps.take count).zipIdx.map fun (s, slot) => ⟨s.id, s.profileStatus, elapsed slot⟩

/-- The profile after a number of runs, each with its inputs and the times that it took. -/
def profileAfter (program : Program) (erf : ErrorFunction)
    (runs : List (NameMap Tensor × (Nat → Nat))) (profile : Profile) : Profile :=
  runs.foldl (fun profile (inputs, elapsed) => (program.executeProfiled erf inputs elapsed profile).1)
    profile

theorem executeProfiled_fst : (program.executeProfiled erf inputs elapsed profile).1 =
    profile.updateAll (program.updates (runSteps erf inputs program.steps []).1.length elapsed) := by
  rw [executeProfiled, updates, Profile.updateAll, List.foldl_map]

/-- A profiled run ends with what any other run ends with. -/
theorem executeProfiled_snd :
    (program.executeProfiled erf inputs elapsed profile).2 = program.execute erf inputs := rfl

/-- A run keeps the entries, also if it fails. -/
theorem map_cleared_executeProfiled :
    (program.executeProfiled erf inputs elapsed profile).1.entries.map ProfileEntry.cleared =
      profile.entries.map ProfileEntry.cleared := by
  rw [executeProfiled_fst, Profile.map_cleared_updateAll]

theorem map_cleared_profileAfter (runs : List (NameMap Tensor × (Nat → Nat))) :
    (program.profileAfter erf runs profile).entries.map ProfileEntry.cleared =
      profile.entries.map ProfileEntry.cleared := by
  induction runs generalizing profile with
  | nil => rfl
  | cons run rest ih => exact ih.trans map_cleared_executeProfiled

/-- A profile without entries stays without. -/
theorem entries_eq_nil_of_map_cleared {after : Profile} (hempty : profile.entries = [])
    (hkept : after.entries.map ProfileEntry.cleared = profile.entries.map ProfileEntry.cleared) :
    after.entries = [] := by
  rwa [hempty, List.map_nil, List.map_eq_nil_iff] at hkept

section Success

variable {t : Topology} (hcompile : compile t = .ok program)
include hcompile

/-- Every primitive is a step, in its own slot. -/
theorem exists_step {p : Primitive} (hp : p ∈ t.primitives) :
    ∃ s, program.steps[program.slot p.id]? = some s ∧ s.id = p.id ∧ s.payload = p.payload := by
  obtain ⟨order, hschedule, hsteps, -, -⟩ := compile_eq_ok_iff.1 hcompile
  have hperm := Topology.schedule_perm hschedule
  have hnodup : (order.map Primitive.id).Nodup := (hperm.map _).nodup_iff.2 t.distinct
  obtain ⟨i, hi⟩ := List.mem_iff_getElem?.1 (hperm.mem_iff.2 hp)
  obtain ⟨-, hall⟩ := represents_of_stepsOf hsteps
  obtain ⟨s, hs, hrepresents⟩ := hall i p hi
  have hslot : program.slot p.id = i := by
    rw [slot, List.findIdx_eq_getD_findIdx?, findIdx?_id hsteps hnodup hi, Option.getD_some]
  exact ⟨s, hslot ▸ hs, hrepresents.id_eq, hrepresents.payload_eq⟩

theorem nodup_ids_steps : (program.steps.map Step.id).Nodup := by
  obtain ⟨order, hschedule, hsteps, -, -⟩ := compile_eq_ok_iff.1 hcompile
  rw [ids_of_stepsOf hsteps, ((Topology.schedule_perm hschedule).map _).nodup_iff]
  exact t.distinct

/-- A run that succeeds stores what became of each primitive that is listed. -/
theorem entries_executeProfiled {ps : List Primitive} (hps : ps ⊆ t.primitives)
    (hlisted : profile.entries.map ProfileEntry.cleared = ps.map Primitive.entry)
    {out : NameMap Tensor}
    (hout : (program.executeProfiled erf inputs elapsed profile).2 = .ok out) :
    (program.executeProfiled erf inputs elapsed profile).1.entries =
      ps.map fun p => p.entryAfter (elapsed (program.slot p.id)) := by
  obtain ⟨values, hrun, -⟩ := exists_of_execute (executeProfiled_snd ▸ hout)
  have hupdates : program.updates (runSteps erf inputs program.steps []).1.length elapsed =
      program.steps.zipIdx.map fun (s, slot) => ⟨s.id, s.profileStatus, elapsed slot⟩ := by
    rw [updates, hrun, length_of_runSteps hrun, List.length_nil, Nat.zero_add, List.take_length]
  have hids : (program.updates (runSteps erf inputs program.steps []).1.length elapsed).map
      Profile.Update.id = program.steps.map Step.id := by
    calc _ = (program.steps.zipIdx.map Prod.fst).map Step.id := by
          rw [hupdates, List.map_map, List.map_map]
          rfl
      _ = program.steps.map Step.id := by rw [List.zipIdx_map_fst]
  have hstored : ∀ p ∈ ps, p.update (elapsed (program.slot p.id)) ∈
      program.updates (runSteps erf inputs program.steps []).1.length elapsed ∧
      (p.update (elapsed (program.slot p.id))).id = p.entry.id := by
    intro p hp
    obtain ⟨s, hs, hid, hpayload⟩ := exists_step hcompile (hps hp)
    refine ⟨?_, rfl⟩
    rw [hupdates, List.mem_map]
    refine ⟨(s, program.slot p.id), List.mem_iff_getElem?.2 ⟨program.slot p.id, by simp [hs]⟩, ?_⟩
    simp only [Primitive.update, Step.profileStatus, hid, hpayload]
  rw [executeProfiled_fst]
  exact Profile.entries_updateAll_of_mem (hids ▸ nodup_ids_steps hcompile) hlisted hstored

end Success

end Program

end TensorLowering
