import TensorLowering.Proofs.Lowering.Meaning
import TensorLowering.Proofs.Program.Cache
import TensorLowering.Proofs.Program.Profiling

/-!
# Profiles of lowered graphs

While a graph is lowered with profiling on, every primitive that is no constant is recorded as it is
added, with the origin that the topology keeps. So the profile lists the primitives of the topology
in its own order, whatever order a program runs them in.

## Main statements

* `Lowerer.entries_of_lower`: the profile of a lowered graph.
* `Lowerer.profile_matches`: the profile before and after runs of the program.
-/

namespace TensorLowering

namespace BuildState

variable {profiling : Bool} {label : NodeLabel} {identity : String} {s s' : BuildState}

/-- The profile lists the primitives of the topology, if it lists anything. -/
def Profiled (profiling : Bool) (s : BuildState) : Prop :=
  s.profile.entries = if profiling then s.topology.profiled.map Primitive.entry else []

theorem profiled_empty (profiling : Bool) : empty.Profiled profiling := by
  cases profiling <;> rfl

/-- A new primitive is new in the profile, too. -/
theorem Profiled.add (h : s.Profiled profiling) {p : Primitive}
    (hadd : s.add profiling label identity p [] = (s', .ok ())) : s'.Profiled profiling := by
  obtain ⟨hnew, hprimitives, -, hprofile⟩ := add_eq_ok_iff.1 hadd
  cases profiling with
  | false =>
      rw [Profiled, hprofile]
      exact h
  | true =>
      have hprofiled : s'.topology.profiled = s.topology.profiled ++
          if p.payload.isData then [] else [p.labelled label identity] := by
        rw [Topology.profiled, hprimitives, List.filter_append, Topology.profiled]
        cases hdata : p.payload.isData <;> simp [hdata]
      have hunlisted : p.id ∉ s.profile.entries.map ProfileEntry.id := by
        intro hmem
        rw [h, if_pos rfl, List.map_map] at hmem
        obtain ⟨q, hq, hid⟩ := List.mem_map.1 hmem
        exact hnew (hid ▸ List.mem_map_of_mem (List.mem_of_mem_filter hq))
      rw [Profiled, hprofile, hprofiled]
      cases hdata : p.payload.isData with
      | true => simpa [Profiled] using h
      | false =>
          rw [if_pos (by rfl), Profile.entries_record hunlisted, h]
          simp [Primitive.entry]

theorem Profiled.adds {ps : List Primitive} (h : s.Profiled profiling)
    (hadds : s.Adds profiling label identity ps s') : s'.Profiled profiling := by
  induction hadds with
  | nil => exact h
  | cons first _ ih => exact ih (h.add first)

end BuildState

/-- A built program comes from the engine, and the profile from lowering. -/
theorem Lowered.compile_eq_ok {lowered : Lowered} {device : Device} {config : BuildConfig}
    {options : BuildOptions} {memory : ProgramCache} {built : Built SharedProgram}
    (h : (lowered.compile (referenceEngine device) config options memory).1 = .ok built) :
    (memory.build lowered.topology).1 = .ok built.program ∧ built.profile = lowered.profile := by
  simp only [compile, referenceEngine] at h
  split at h
  · next program hprogram =>
    obtain rfl := Except.ok.inj h
    exact ⟨hprogram, rfl⟩
  · exact absurd h Outcome.fail_ne_ok
  · cases h

namespace Lowerer

variable {l : Lowerer} {g : Graph} {options : BuildOptions} {lowered : Lowered}

/-- The profile of a lowered graph lists the primitives of its topology. -/
theorem entries_of_lower (hregistry : l.registry = .standard)
    (h : l.lower g options = .ok lowered) :
    lowered.profile.entries =
      if l.config.profiling then lowered.topology.profiled.map Primitive.entry else [] := by
  have hprofiled : (l.stateBefore g options g.size).Profiled l.config.profiling := by
    apply stateBefore_induction (P := fun _ s => s.Profiled l.config.profiling) h hregistry
    · exact BuildState.profiled_empty _
    · rintro i n ps - ⟨-, -, -, -, -, hadds⟩ hbefore
      exact hbefore.adds hadds
    · exact Nat.le_refl _
  rw [(lowered_eq h).2]
  exact hprofiled

/-- Profiles match programs. Without profiling a profile stays empty; with it, it lists the
primitives of the topology that are no constants, each once, in insertion order, with their origins.
The program may have been in the cache of the engine, and may have run before: a run has the outputs
that it has without a profile, and if it succeeds exactly the reshapes are marked as optimized
out. -/
theorem profile_matches (hregistry : l.registry = .standard)
    (h : l.lower g options = .ok lowered) :
    lowered.profile.entries =
        (if l.config.profiling then lowered.topology.profiled.map Primitive.entry else []) ∧
      (lowered.topology.profiled.map Primitive.id).Nodup ∧
      ∀ (device : Device) (calls : List (Topology × BuildConfig)) (built : Built SharedProgram),
        (∀ call ∈ calls, call.1.fingerprint = lowered.topology.fingerprint →
          call.1 = lowered.topology) →
        (lowered.compile (referenceEngine device) l.config options
          ((referenceEngine device).buildAll calls .empty).memory).1 = .ok built →
        ∀ (erf : ErrorFunction) (runs : List (NameMap Tensor × (Nat → Nat))) (inputs : NameMap Tensor)
          (elapsed : Nat → Nat) (after : Profile) (result : Outcome EngineError (NameMap Tensor)),
          built.program.program.executeProfiled erf inputs elapsed
            (built.program.program.profileAfter erf runs built.profile) = (after, result) →
          result = built.program.program.execute erf inputs ∧
            (l.config.profiling = false → after.entries = []) ∧
            (l.config.profiling = true → ∀ out, result = .ok out →
              after.entries = lowered.topology.profiled.map fun p =>
                p.entryAfter (elapsed (built.program.program.slot p.id))) := by
  have hentries := entries_of_lower hregistry h
  refine ⟨hentries, ?_, ?_⟩
  · exact lowered.topology.distinct.sublist (List.filter_sublist.map _)
  intro device calls built hsame hbuilt erf runs inputs elapsed after result hrun
  obtain ⟨hprogram, hprofile⟩ := Lowered.compile_eq_ok hbuilt
  have hcompile := (Engine.stemsFrom_buildAll device calls).compile_of_build (by simpa using hsame)
    hprogram
  obtain ⟨rfl, rfl⟩ := Prod.ext_iff.1 hrun
  have hbefore : (built.program.program.profileAfter erf runs built.profile).entries.map
      ProfileEntry.cleared = lowered.profile.entries.map ProfileEntry.cleared := by
    rw [Program.map_cleared_profileAfter, hprofile]
  refine ⟨Program.executeProfiled_snd, ?_, ?_⟩
  · intro hoff
    have hempty : lowered.profile.entries = [] := by simp [hentries, hoff]
    apply Program.entries_eq_nil_of_map_cleared hempty
    rw [Program.map_cleared_executeProfiled, hbefore]
  · intro hon out hout
    apply Program.entries_executeProfiled hcompile (List.filter_subset_self _) _ hout
    rw [hbefore, hentries, if_pos hon, List.map_map]
    rfl

/-- A processor that profiles. -/
def profiler : Lowerer := { plain with config := { profiling := true } }

/-- The second of two builds of a lowered graph with one engine. -/
def rebuilt (lowered : Lowered) : Outcome LoweringError (Built SharedProgram) :=
  let engine := referenceEngine (.cpu referenceName)
  (lowered.compile engine profiler.config {}
    (engine.buildAll [(lowered.topology, {})] .empty).memory).1

/-- A run of the product of two matrices marks the reshape behind the product as optimized out, also
when the program is the one of an earlier build. -/
theorem profile_product : ∃ lowered built after out,
    profiler.lower .product {} = .ok lowered ∧ rebuilt lowered = .ok built ∧
      built.program.program.executeProfiled id Graph.productInputs (fun slot => slot) built.profile =
        (after, .ok out) ∧
      built.program.program.execute id Graph.productInputs = .ok out ∧
      after.entries = [
        ⟨"parameter:a", "Parameter", "a", .executed, false, 0, 0⟩,
        ⟨"parameter:b", "Parameter", "b", .executed, false, 1, 0⟩,
        ⟨"matmul:c", "MatMul", "c", .executed, false, 2, 0⟩,
        ⟨"matmul:c_out_reshape", "reshape", "c", .optimizedOut, false, 3, 0⟩,
        ⟨"result:r", "Result", "r", .executed, false, 4, 0⟩] := by
  have htest : ((profiler.lower .product {}).toOption.any fun lowered =>
      (rebuilt lowered).toOption.any fun built =>
        (built.program.program.execute id Graph.productInputs).toOption.any fun _ =>
          decide ((lowered.topology.profiled.map fun p =>
            p.entryAfter (built.program.program.slot p.id)) = [
              ⟨"parameter:a", "Parameter", "a", .executed, false, 0, 0⟩,
              ⟨"parameter:b", "Parameter", "b", .executed, false, 1, 0⟩,
              ⟨"matmul:c", "MatMul", "c", .executed, false, 2, 0⟩,
              ⟨"matmul:c_out_reshape", "reshape", "c", .optimizedOut, false, 3, 0⟩,
              ⟨"result:r", "Result", "r", .executed, false, 4, 0⟩])) = true := by
    decide +kernel
  obtain ⟨lowered, h, htest⟩ := Outcome.exists_of_any_toOption htest
  obtain ⟨built, hbuilt, htest⟩ := Outcome.exists_of_any_toOption htest
  obtain ⟨out, hout, htest⟩ := Outcome.exists_of_any_toOption htest
  obtain ⟨-, -, hruns⟩ := profile_matches rfl h
  obtain ⟨-, -, hentries⟩ := hruns (.cpu referenceName) [(lowered.topology, {})] built (by simp)
    hbuilt id [] Graph.productInputs (fun slot => slot) _ _ rfl
  exact ⟨lowered, built, _, out, h, hbuilt, Prod.ext_iff.2 ⟨rfl, hout⟩, hout,
    (hentries rfl out hout).trans (of_decide_eq_true htest)⟩

end Lowerer

end TensorLowering
