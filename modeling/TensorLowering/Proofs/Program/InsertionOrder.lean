import TensorLowering.Proofs.Program.Outputs

/-!
# Insertion order

Two topologies that hold the same primitives in different insertion orders have different schedules,
and their programs keep the tensors in different slots. Both programs compute one valuation of the
primitives, so they hand out the same map, or fail together.

## Main statements

* `Program.exists_compile_of_perm`: whether a topology can be compiled does not depend on the order.
* `Program.exists_valued_of_runSteps`: a run that succeeds computes a valuation.
* `Program.execute_of_perm`: neither does what the program hands out.
-/

namespace TensorLowering

namespace Step

variable {erf : ErrorFunction} {inputs v : NameMap Tensor} {before : List Step} {p : Primitive}
  {s : Step}
    {values : List Tensor}

/-- Sources that have slots have tensors, once the steps in the slots have. -/
theorem exists_reads {sources : List Source} {slots : List Nat}
    (hslots : List.Forall₂ (fun source slot => source.output = 0 ∧
      (before[slot]?).map Step.id = some source.id) sources slots)
    (hvalues : List.Forall₂ (fun (s : Step) t => v.get? s.id = some t) before values) :
    ∃ args, Reads v sources args := by
  induction hslots with
  | nil => exact ⟨[], .nil⟩
  | cons hslot _ ih =>
      obtain ⟨s, hs, hid⟩ := Option.map_eq_some_iff.1 hslot.2
      obtain ⟨t, -, ht⟩ := exists_right_of_forall₂ hvalues hs
      obtain ⟨args, hargs⟩ := ih
      exact ⟨t :: args, .cons (hid ▸ ht) hargs⟩

/-- A step that represents a primitive holds a constant only for a literal. -/
theorem Represents.data_of_constant (hs : Represents before p s) {t : Tensor}
    (h : s.constant = some t) : ∃ literal, p.payload = .data literal ∧
      Tensor.ofLiteral literal = .ok t := by
  have hconstant := hs.constant
  rw [h, constantOf] at hconstant
  split at hconstant
  · cases hconstant
  · next literal hpayload =>
    obtain ⟨t', ht', h'⟩ := Outcome.bind_eq_ok_iff.1 hconstant
    obtain rfl := Option.some.inj (Outcome.pure_eq_ok_iff.1 h')
    exact ⟨literal, hpayload, ht'⟩
  · cases hconstant

/-- What a step computes is computed by its primitive, from the tensors of the steps before. -/
theorem exists_computes (hs : Represents before p s)
    (hvalues : List.Forall₂ (fun (s : Step) t => v.get? s.id = some t) before values) {t : Tensor}
    (h : s.value erf inputs values = .ok t) :
    ∃ args, Reads v p.inputs args ∧ p.Computes erf inputs args t := by
  obtain ⟨args, hreads⟩ := exists_reads hs.inputs hvalues
  refine ⟨args, hreads, ?_⟩
  rw [value] at h
  split at h
  · next type _ hpayload =>
    rw [bindInput, hs.originName_eq] at h
    cases hbound : inputs.get? p.originName with
    | none => simp [hbound, failExecution] at h
    | some t' =>
        simp only [hbound] at h
        split at h
        · next hfits =>
          cases h
          exact .input (hs.payload_eq ▸ hpayload) hbound hfits
        · simp [failExecution] at h
  · next t' hconstant _ =>
    cases h
    obtain ⟨literal, hpayload, hread⟩ := hs.data_of_constant hconstant
    exact .constant hpayload hread
  · rw [mapM_slots (.execution (.emptySlot s.id)) hs.inputs hvalues hreads] at h
    exact .work ((compute_eq hs.id_eq hs.payload_eq args).symm.trans h)

end Step

namespace Program

variable {erf : ErrorFunction} {inputs : NameMap Tensor} {order : List Primitive} {steps : List Step}

/-- A run that succeeds computes a valuation of its primitives. -/
theorem exists_valued_of_runSteps (hsteps : stepsOf order = .ok steps)
    (hnodup : (order.map Primitive.id).Nodup) {values : List Tensor}
    (hrun : runSteps erf inputs steps [] = (values, .ok ())) :
    ∃ v, Valued erf inputs order v ∧ List.Forall₂ (fun s t => v.get? s.id = some t) steps values := by
  induction order using List.reverseRecOn generalizing steps values with
  | nil =>
      cases hsteps
      cases hrun
      exact ⟨.empty, .nil, .nil⟩
  | append_singleton order p ih =>
      obtain ⟨before, s, hbefore, hs, rfl⟩ := stepsOf_append_singleton_eq_ok_iff.1 hsteps
      rw [List.map_append, List.nodup_append] at hnodup
      obtain ⟨hnodup, -, hdistinct⟩ := hnodup
      rw [runSteps_append] at hrun
      rcases hmid : runSteps erf inputs before [] with ⟨mid, fault | ⟨⟩⟩
      · rw [hmid] at hrun
        cases hrun
      · obtain ⟨v, hvalued, hvalues⟩ := ih hbefore hnodup hmid
        have hrepresents := Step.represents_of_ofPrimitive hs
        rw [hmid] at hrun
        simp only [runSteps] at hrun
        split at hrun
        · next t ht =>
          cases hrun
          obtain ⟨args, hreads, hcomputes⟩ := Step.exists_computes hrepresents hvalues ht
          have hfresh : p.id ∉ order.map Primitive.id := by
            intro hmem
            exact hdistinct _ hmem _ (by simp) rfl
          obtain ⟨v', hvalued', hextends, hlast⟩ := hvalued.exists_snoc hfresh hreads hcomputes
          refine ⟨v', hvalued', List.rel_append ?_ (.cons (hrepresents.id_eq ▸ hlast) .nil)⟩
          exact hvalues.imp fun s t hold => hextends s.id t hold
        · cases hrun

/-- The tensors that an execution which succeeds has computed. -/
theorem exists_satisfied_of_execute {t : Topology} {program : Program} {out : NameMap Tensor}
    (hcompile : compile t = .ok program) (h : program.execute erf inputs = .ok out) :
    ∃ v, ∀ p ∈ t.primitives, p.Satisfied erf inputs v := by
  obtain ⟨order, hschedule, hsteps, -, -⟩ := compile_eq_ok_iff.1 hcompile
  have hperm := Topology.schedule_perm hschedule
  obtain ⟨values, hrun, -⟩ := exists_of_execute h
  obtain ⟨v, hvalued, -⟩ := exists_valued_of_runSteps hsteps
    ((hperm.map _).nodup_iff.2 t.distinct) hrun
  exact ⟨v, fun p hp => hvalued.satisfied p (hperm.mem_iff.2 hp)⟩

/-- The names in the map that a run hands out are those of the primitives that are handed out. -/
theorem mem_names_execute_iff {t : Topology} {program : Program} {out : NameMap Tensor}
    (hcompile : compile t = .ok program) (hrun : program.execute erf inputs = .ok out)
    {name : String} : name ∈ out.names ↔
      ∃ p ∈ t.primitives, p.HandedOut t.primitives ∧ p.outputName = name := by
  obtain ⟨ps, entries, -, hmem, hentries, -, rfl⟩ := exists_entries hcompile hrun
  rw [NameMap.mem_names_ofList, names_of_entries hentries, List.mem_map]
  simp only [hmem, and_assoc]

/-- A topology that is compiled has no reason not to be. -/
theorem not_compileFault_of_stepsOf (hsteps : stepsOf order = .ok steps)
    {fault : Fault EngineError} : ¬ CompileFault order fault := by
  intro hfault
  obtain ⟨-, hall⟩ := represents_of_stepsOf hsteps
  have hrepresents : ∀ p ∈ order, ∃ before s, Step.Represents before p s := by
    intro p hp
    obtain ⟨i, hi⟩ := List.mem_iff_getElem?.1 hp
    obtain ⟨s, -, hs⟩ := hall i p hi
    exact ⟨_, s, hs⟩
  cases hfault with
  | @kernel p spec member payload =>
      obtain ⟨before, s, hs⟩ := hrepresents p member
      have hconstant := hs.constant
      simp [Step.constantOf, payload, failUnimplemented] at hconstant
  | @literal p literal fault member payload rejected =>
      obtain ⟨before, s, hs⟩ := hrepresents p member
      have hconstant := hs.constant
      simp [Step.constantOf, payload, rejected] at hconstant
  | @output p source member reads second =>
      obtain ⟨before, s, hs⟩ := hrepresents p member
      obtain ⟨i, hi⟩ := List.mem_iff_getElem?.1 reads
      obtain ⟨slot, -, hslot⟩ := exists_right_of_forall₂ hs.inputs hi
      exact second hslot.1

section Perm

variable {t u : Topology} (hperm : t.primitives.Perm u.primitives)
include hperm

/-- A topology is compiled as soon as another one with its primitives is. -/
theorem exists_compile_of_perm {program : Program} (hcompile : compile t = .ok program) :
    ∃ program', compile u = .ok program' := by
  obtain ⟨order, hschedule, hsteps, -, -⟩ := compile_eq_ok_iff.1 hcompile
  have horder : order.Perm u.primitives := (Topology.schedule_perm hschedule).trans hperm
  obtain ⟨order', hschedule'⟩ :=
    Topology.exists_schedule horder (Topology.schedule_inOrder hschedule)
  cases hcompile' : compile u with
  | error fault =>
      have hfault := compileFault_of_schedule hschedule' hcompile'
      exact absurd (hfault.mono horder.symm.subset) (not_compileFault_of_stepsOf hsteps)
  | ok program' => exact ⟨program', rfl⟩

theorem handedOut_of_perm (p : Primitive) :
    p.HandedOut t.primitives ↔ p.HandedOut u.primitives := by
  simp only [Primitive.HandedOut, hperm.mem_iff]

/-- Two programs of the same primitives succeed on the same inputs, with the same map when no two
outputs have one name. -/
theorem execute_eq_ok_of_perm {program program' : Program} {out : NameMap Tensor}
    (hcompile : compile t = .ok program) (hcompile' : compile u = .ok program')
    (hnames : program.outputNames.Nodup) (h : program.execute erf inputs = .ok out) :
    program'.execute erf inputs = .ok out := by
  have hdistinct := (nodup_outputNames_iff hcompile).1 hnames
  obtain ⟨v, hsatisfied⟩ := exists_satisfied_of_execute hcompile h
  obtain ⟨_, hout, hvalues⟩ := exists_execute hcompile hsatisfied
  obtain rfl := Except.ok.inj (h.symm.trans hout)
  have hsatisfied' : ∀ p ∈ u.primitives, p.Satisfied erf inputs v :=
    fun p hp => hsatisfied p (hperm.mem_iff.2 hp)
  obtain ⟨out', hout', hvalues'⟩ := exists_execute hcompile' hsatisfied'
  have hunique : ∀ p ∈ t.primitives, p.HandedOut t.primitives →
      ∀ q ∈ t.primitives, q.HandedOut t.primitives → q.outputName = p.outputName → q = p :=
    fun p hp hpout q hq hqout hsame => hdistinct q hq hqout p hp hpout hsame
  have hhanded := handedOut_of_perm hperm
  have hsame : out' = out := by
    apply NameMap.eq_of_get?_eq
    · intro name
      rw [mem_names_execute_iff hcompile' hout', mem_names_execute_iff hcompile h]
      simp only [hperm.mem_iff, hhanded]
    · intro name hname
      obtain ⟨p, hp, hpout, rfl⟩ := (mem_names_execute_iff hcompile h).1 hname
      rw [hvalues p hp hpout (hunique p hp hpout)]
      apply hvalues' p (hperm.mem_iff.1 hp) ((hhanded p).1 hpout)
      intro q hq hqout
      exact hunique p hp hpout q (hperm.mem_iff.2 hq) ((hhanded q).2 hqout)
  rw [hout', hsame]

end Perm

/-- Insertion order does not matter to the results of a program: of two topologies with the same
primitives both are compiled or neither, and when no two outputs have one name, their programs hand
out the same map for every inputs, or both fail. -/
theorem execute_of_perm {t u : Topology} (hperm : t.primitives.Perm u.primitives) :
    ((∃ program, compile t = .ok program) ↔ ∃ program, compile u = .ok program) ∧
      ∀ program program', compile t = .ok program → compile u = .ok program' →
        program.outputNames.Nodup → ∀ erf inputs,
          (∃ out, program.execute erf inputs = .ok out ∧ program'.execute erf inputs = .ok out) ∨
          ∃ fault fault', program.execute erf inputs = .error fault ∧
            program'.execute erf inputs = .error fault' := by
  refine ⟨⟨?_, ?_⟩, ?_⟩
  · rintro ⟨program, h⟩
    exact exists_compile_of_perm hperm h
  · rintro ⟨program, h⟩
    exact exists_compile_of_perm hperm.symm h
  · intro program program' hcompile hcompile' hnames erf inputs
    have hnames' : program'.outputNames.Nodup := by
      rw [nodup_outputNames_iff hcompile']
      rw [nodup_outputNames_iff hcompile] at hnames
      simpa only [hperm.mem_iff, handedOut_of_perm hperm] using hnames
    rcases hrun : program.execute erf inputs with fault | out
    · rcases hrun' : program'.execute erf inputs with fault' | out'
      · exact .inr ⟨fault, fault', rfl, rfl⟩
      · -- what the second program hands out, the first does too
        have hfirst := execute_eq_ok_of_perm hperm.symm hcompile' hcompile hnames' hrun'
        rw [hrun] at hfirst
        cases hfirst
    · exact .inl ⟨out, rfl, execute_eq_ok_of_perm hperm hcompile hcompile' hnames hrun⟩

end Program

namespace Topology

/-- Two inputs and their difference. -/
def subtraction : List Primitive :=
  [⟨"parameter:a", .inputLayout (.ofSizes .f32 [2]), [], "a", "Parameter"⟩,
    ⟨"parameter:b", .inputLayout (.ofSizes .f32 [2]), [], "b", "Parameter"⟩,
    ⟨"subtract:y", .eltwise .sub .f32, [⟨"parameter:a", 0⟩, ⟨"parameter:b", 0⟩], "y", "Subtract"⟩]

/-- The difference behind its inputs. -/
def backward : Topology := ofPrimitives subtraction (by decide)

/-- The difference in front of its inputs. -/
def forward : Topology := ofPrimitives subtraction.reverse (by decide)

end Topology

/-- The two programs of a difference have the inputs in different slots and hand out the same. -/
theorem Program.execute_of_perm_subtraction :
    Topology.forward.primitives.Perm Topology.backward.primitives ∧
      ∃ program program' inputs out, compile .forward = .ok program ∧
        compile .backward = .ok program' ∧ program.steps.map Step.id ≠ program'.steps.map Step.id ∧
        program.outputNames.Nodup ∧ out.names = ["subtract:y"] ∧
        program.execute id inputs = .ok out ∧ program'.execute id inputs = .ok out := by
  let inputs : NameMap Tensor := .ofList
    [("a", ⟨[2], .f32 ([3, 5].map .ofInt).toArray, by decide +kernel⟩),
      ("b", ⟨[2], .f32 ([1, 2].map .ofInt).toArray, by decide +kernel⟩)]
  have hperm : Topology.forward.primitives.Perm Topology.backward.primitives :=
    List.reverse_perm _
  have htest : ((compile .forward).toOption.any fun program =>
      (program.execute id inputs).toOption.any fun out =>
        decide (program.outputNames.Nodup ∧ out.names = ["subtract:y"] ∧
          program.steps.map Step.id = ["parameter:b", "parameter:a", "subtract:y"])) = true := by
    decide +kernel
  obtain ⟨program, hprogram, htest⟩ := Outcome.exists_of_any_toOption htest
  obtain ⟨out, hout, htest⟩ := Outcome.exists_of_any_toOption htest
  obtain ⟨hnodup, hnames, hids⟩ := of_decide_eq_true htest
  have htest' : ((compile .backward).toOption.any fun program' =>
      decide (program'.steps.map Step.id = Topology.backward.ids)) = true := by
    decide +kernel
  obtain ⟨program', hprogram', htest'⟩ := Outcome.exists_of_any_toOption htest'
  have hids' := of_decide_eq_true htest'
  have hdiffer : program.steps.map Step.id ≠ program'.steps.map Step.id := by
    rw [hids, hids']
    decide
  obtain ⟨-, hexecute⟩ := execute_of_perm hperm
  rcases hexecute program program' hprogram hprogram' hnodup id inputs with
    ⟨same, hsame, hsame'⟩ | ⟨_, _, hfault, -⟩
  · obtain rfl := Except.ok.inj (hout.symm.trans hsame)
    exact ⟨hperm, program, program', inputs, out, hprogram, hprogram', hdiffer, hnodup, hnames,
      hout, hsame'⟩
  · rw [hout] at hfault
    cases hfault

end TensorLowering
