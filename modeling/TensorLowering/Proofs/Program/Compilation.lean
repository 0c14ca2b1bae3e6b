import Mathlib.Data.List.Induction
import TensorLowering.Program.Basic
import TensorLowering.Proofs.Topology.Schedule

/-!
# Compiled programs

The steps of a program are its primitives in schedule order, each with the slots of what it reads.
When a topology is in dependency order, compiling it fails for one of three reasons, which
`CompileFault` lists.
-/

namespace TensorLowering

/-- A step that stands for a primitive: it reads earlier slots, which hold the primitives that it
names, and holds the constant. -/
structure Step.Represents (before : List Step) (p : Primitive) (s : Step) : Prop where
  id_eq : s.id = p.id
  originName_eq : s.originName = p.originName
  originType_eq : s.originType = p.originType
  payload_eq : s.payload = p.payload
  inputs : List.Forall₂ (fun source slot => source.output = 0 ∧
    (before[slot]?).map Step.id = some source.id) p.inputs s.inputs
  constant : Step.constantOf p = .ok s.constant

/-- Why primitives in dependency order cannot be compiled. -/
inductive CompileFault (ps : List Primitive) : Fault EngineError → Prop where
  | kernel {p : Primitive} {spec : KernelSpec} (member : p ∈ ps)
      (payload : p.payload = .customKernel spec) :
      CompileFault ps (.error (.unimplemented (.customKernel p.id spec.entryPoint)))
  | literal {p : Primitive} {literal : Literal} {fault : Fault EngineError} (member : p ∈ ps)
      (payload : p.payload = .data literal) (rejected : Tensor.ofLiteral literal = .error fault) :
      CompileFault ps fault
  | output {p : Primitive} {s : Source} (member : p ∈ ps) (reads : s ∈ p.inputs)
      (second : s.output ≠ 0) :
      CompileFault ps (.error (.execution (.secondOutput p.id s.output s.id)))

theorem CompileFault.mono {ps qs : List Primitive} {fault : Fault EngineError}
    (h : CompileFault ps fault) (hsub : ps ⊆ qs) : CompileFault qs fault := by
  cases h with
  | kernel member payload => exact .kernel (hsub member) payload
  | literal member payload rejected => exact .literal (hsub member) payload rejected
  | output member reads second => exact .output (hsub member) reads second

namespace Step

variable {steps : List Step} {p : Primitive} {s : Step}

/-- A source has a slot when it is a first output of a step before. -/
theorem slotOf_eq_ok_iff {id : String} {source : Source} {slot : Nat} :
    slotOf steps id source = .ok slot ↔
      source.output = 0 ∧ steps.findIdx? (·.id == source.id) = some slot := by
  by_cases houtput : source.output = 0
  · rcases hfind : steps.findIdx? (·.id == source.id) with _ | found <;>
      simp [slotOf, houtput, hfind, failExecution]
  · simp [slotOf, houtput, failExecution]

/-- A source without a slot is a second output, or no step before has its name. -/
theorem slotOf_eq_error {id : String} {source : Source} {fault : Fault EngineError}
    (h : slotOf steps id source = .error fault) (hmem : source.id ∈ steps.map Step.id) :
    source.output ≠ 0 ∧ fault = .error (.execution (.secondOutput id source.output source.id)) := by
  by_cases houtput : source.output = 0
  · obtain ⟨s, hs, hid⟩ := List.mem_map.1 hmem
    have hfind : (steps.findIdx? (·.id == source.id)).isSome := by
      rw [List.findIdx?_isSome, List.any_eq_true]
      exact ⟨s, hs, by simpa using hid⟩
    obtain ⟨slot, hslot⟩ := Option.isSome_iff_exists.1 hfind
    simp [slotOf, houtput, hslot] at h
  · refine ⟨houtput, ?_⟩
    simpa [slotOf, houtput, failExecution, Outcome.fail, eq_comm] using h

theorem id_of_findIdx? {id : String} {slot : Nat} (h : steps.findIdx? (·.id == id) = some slot) :
    (steps[slot]?).map Step.id = some id := by
  obtain ⟨hlt, hid, -⟩ := List.findIdx?_eq_some_iff_getElem.1 h
  rw [List.getElem?_eq_getElem hlt]
  simpa using hid

/-- A primitive that becomes a step is represented by it. -/
theorem represents_of_ofPrimitive (h : ofPrimitive steps p = .ok s) : Represents steps p s := by
  obtain ⟨constant, hconstant, h⟩ := Outcome.bind_eq_ok_iff.1 h
  obtain ⟨inputs, hinputs, h⟩ := Outcome.bind_eq_ok_iff.1 h
  obtain rfl := Outcome.pure_eq_ok_iff.1 h
  refine ⟨rfl, rfl, rfl, rfl, ?_, hconstant⟩
  refine (Outcome.mapM_eq_ok_iff.1 hinputs).imp fun source slot hslot => ?_
  obtain ⟨houtput, hfind⟩ := slotOf_eq_ok_iff.1 hslot
  exact ⟨houtput, id_of_findIdx? hfind⟩

/-- A primitive whose inputs are steps before it becomes a step, unless a fault is listed for it. -/
theorem compileFault_of_ofPrimitive {fault : Fault EngineError}
    (h : ofPrimitive steps p = .error fault) (hinputs : ∀ s ∈ p.inputs, s.id ∈ steps.map Step.id) :
    CompileFault [p] fault := by
  cases hconstant : constantOf p with
  | error fault' =>
      have hfault : fault' = fault := by
        rw [ofPrimitive, hconstant] at h
        exact Except.error.inj h
      subst hfault
      rw [constantOf] at hconstant
      split at hconstant
      · next spec hpayload =>
        cases hconstant
        exact .kernel (List.mem_singleton_self p) hpayload
      · next literal hpayload =>
        cases hliteral : Tensor.ofLiteral literal with
        | error fault'' =>
            rw [hliteral] at hconstant
            cases hconstant
            exact .literal (List.mem_singleton_self p) hpayload hliteral
        | ok t =>
            rw [hliteral] at hconstant
            cases hconstant
      · cases hconstant
  | ok constant =>
      cases hslots : p.inputs.mapM (slotOf steps p.id) with
      | error fault' =>
          have hfault : fault' = fault := by
            rw [ofPrimitive, hconstant, hslots] at h
            exact Except.error.inj h
          subst hfault
          obtain ⟨source, hsource, hslot⟩ := Outcome.exists_of_mapM_eq_error hslots
          obtain ⟨hsecond, rfl⟩ := slotOf_eq_error hslot (hinputs source hsource)
          exact .output (List.mem_singleton_self p) hsource hsecond
      | ok slots =>
          rw [ofPrimitive, hconstant, hslots] at h
          cases h

end Step

namespace Program

variable {ps : List Primitive} {p : Primitive} {steps : List Step}

theorem stepsOf_append_singleton (ps : List Primitive) (p : Primitive) :
    stepsOf (ps ++ [p]) = (do
      let before ← stepsOf ps
      let s ← Step.ofPrimitive before p
      pure (before ++ [s])) := by
  rw [stepsOf, List.foldlM_append, stepsOf]
  rcases ps.foldlM _ [] with fault | before
  · rfl
  · simp only [List.foldlM_cons, List.foldlM_nil, bind_pure]

/-- The steps of one more primitive are the steps before and a step of its own. -/
theorem stepsOf_append_singleton_eq_ok_iff :
    stepsOf (ps ++ [p]) = .ok steps ↔ ∃ before s, stepsOf ps = .ok before ∧
      Step.ofPrimitive before p = .ok s ∧ steps = before ++ [s] := by
  rw [stepsOf_append_singleton]
  simp only [Outcome.bind_eq_ok_iff, Outcome.pure_eq_ok_iff, eq_comm (b := steps)]
  constructor
  · rintro ⟨before, hbefore, s, hs, h⟩
    exact ⟨before, s, hbefore, hs, h⟩
  · rintro ⟨before, s, hbefore, hs, h⟩
    exact ⟨before, hbefore, s, hs, h⟩

/-- Every step represents its primitive. -/
theorem represents_of_stepsOf (h : stepsOf ps = .ok steps) :
    steps.length = ps.length ∧ ∀ i p, ps[i]? = some p →
      ∃ s, steps[i]? = some s ∧ Step.Represents (steps.take i) p s := by
  induction ps using List.reverseRecOn generalizing steps with
  | nil =>
      cases h
      exact ⟨rfl, by simp⟩
  | append_singleton ps p ih =>
      obtain ⟨before, s, hbefore, hs, rfl⟩ := stepsOf_append_singleton_eq_ok_iff.1 h
      obtain ⟨hlength, hall⟩ := ih hbefore
      refine ⟨by simp [hlength], ?_⟩
      intro i q hq
      rcases getElem?_append_singleton_cases hq with ⟨hlt, hq⟩ | ⟨rfl, rfl⟩
      · obtain ⟨s', hs', hrepresents⟩ := hall i q hq
        rw [List.getElem?_append_left (by omega), List.take_append_of_le_length (by omega)]
        exact ⟨s', hs', hrepresents⟩
      · refine ⟨s, by simp [← hlength], ?_⟩
        rw [← hlength, List.take_left]
        exact Step.represents_of_ofPrimitive hs

/-- The steps have the identifiers of the primitives. -/
theorem ids_of_stepsOf (h : stepsOf ps = .ok steps) : steps.map Step.id = ps.map Primitive.id := by
  obtain ⟨hlength, hall⟩ := represents_of_stepsOf h
  apply List.ext_getElem?
  intro i
  rw [List.getElem?_map, List.getElem?_map]
  cases hp : ps[i]? with
  | none =>
      have : steps[i]? = none := by
        rw [List.getElem?_eq_none_iff] at hp ⊢
        omega
      simp [this]
  | some p =>
      obtain ⟨s, hs, hrepresents⟩ := hall i p hp
      simp [hs, hrepresents.id_eq]

/-- The slots that a step reads are those of the primitives that its primitive reads. -/
theorem slots_of_stepsOf (h : stepsOf ps = .ok steps) {i : Nat} {s : Step} (hp : ps[i]? = some p)
    (hs : steps[i]? = some s) :
    List.Forall₂ (fun source slot => (ps[slot]?).map Primitive.id = some source.id)
      p.inputs s.inputs := by
  obtain ⟨-, hall⟩ := represents_of_stepsOf h
  obtain ⟨s', hs', hrepresents⟩ := hall i p hp
  obtain rfl := Option.some.inj (hs.symm.trans hs')
  refine List.Forall₂.imp (fun (source : Source) slot hread => ?_) hrepresents.inputs
  obtain ⟨before, hbefore, hid⟩ := Option.map_eq_some_iff.1 hread.2
  have hlt : slot < i := by
    apply Nat.lt_of_not_le
    intro hle
    rw [List.getElem?_take_eq_none hle] at hbefore
    cases hbefore
  rw [List.getElem?_take_of_lt hlt] at hbefore
  rw [← List.getElem?_map, ← ids_of_stepsOf h, List.getElem?_map, hbefore, Option.map_some, hid]

/-- Primitives in dependency order become steps, unless a fault is listed for one of them. -/
theorem compileFault_of_stepsOf {fault : Fault EngineError} (horder : InOrder ps)
    (h : stepsOf ps = .error fault) : CompileFault ps fault := by
  induction ps using List.reverseRecOn with
  | nil => cases h
  | append_singleton ps p ih =>
      rw [stepsOf_append_singleton] at h
      cases hbefore : stepsOf ps with
      | error fault' =>
          rw [hbefore] at h
          cases h
          exact (ih (horder.of_append) hbefore).mono (List.subset_append_left _ _)
      | ok before =>
          cases hs : Step.ofPrimitive before p with
          | error fault' =>
              rw [hbefore] at h
              have hfault : fault' = fault := by
                simpa [hs, bind, Except.bind] using h
              subst hfault
              refine (Step.compileFault_of_ofPrimitive hs ?_).mono (List.subset_append_right _ _)
              intro source hsource
              have hlast := horder ps.length p (by simp) source hsource
              rwa [List.take_left, ← ids_of_stepsOf hbefore] at hlast
          | ok s =>
              rw [hbefore] at h
              simp [hs, bind, Except.bind, pure, Except.pure] at h

/-- A program is made from the schedule of its topology. -/
theorem compile_eq_ok_iff {t : Topology} {program : Program} :
    compile t = .ok program ↔ ∃ order, t.schedule = .ok order ∧ stepsOf order = .ok program.steps ∧
      program.fingerprint = t.fingerprint ∧ program.outputs = outputsOf program.steps := by
  rcases program with ⟨fingerprint, steps, outputs⟩
  simp only [compile, Outcome.bind_eq_ok_iff, Outcome.mapError_eq_ok_iff, Outcome.pure_eq_ok_iff,
    Program.mk.injEq]
  constructor
  · rintro ⟨order, horder, _, hsteps, hfingerprint, rfl, houtputs⟩
    exact ⟨order, horder, hsteps, hfingerprint.symm, houtputs.symm⟩
  · rintro ⟨order, horder, hsteps, hfingerprint, houtputs⟩
    exact ⟨order, horder, steps, hsteps, hfingerprint.symm, rfl, houtputs.symm⟩

/-- A topology that has a schedule is compiled, unless a fault is listed for it. -/
theorem compileFault_of_schedule {t : Topology} {order : List Primitive}
    {fault : Fault EngineError} (hschedule : t.schedule = .ok order)
    (h : compile t = .error fault) : CompileFault t.primitives fault := by
  cases hsteps : stepsOf order with
  | error fault' =>
      have hfault : fault' = fault := by
        simpa [compile, hschedule, hsteps, bind, Except.bind, Outcome.mapError] using h
      subst hfault
      exact (compileFault_of_stepsOf (Topology.schedule_inOrder hschedule) hsteps).mono
        (Topology.schedule_perm hschedule).subset
  | ok steps =>
      simp [compile, hschedule, hsteps, bind, Except.bind, Outcome.mapError, pure, Except.pure] at h

/-- A topology in dependency order is compiled, unless a fault is listed for it. -/
theorem compileFault_of_compile {t : Topology} {fault : Fault EngineError}
    (horder : InOrder t.primitives) (h : compile t = .error fault) :
    CompileFault t.primitives fault := by
  obtain ⟨order, hschedule⟩ := Topology.schedule_of_inOrder horder
  exact compileFault_of_schedule hschedule h

end Program

end TensorLowering
