import TensorLowering.Proofs.NameMap
import TensorLowering.Proofs.Program.Valuation

/-!
# What programs hand out

A run collects the values of the primitives that are handed out in one map. Every one of them comes
in under its name, so a value is kept when no other primitive has the name, and the map has an entry
for each output when no two have one name.

## Main statements

* `Program.exists_entries`: a run hands out the values of the primitives that are handed out.
* `Program.get?_execute`: what stands under a name that one primitive has.
* `Program.size_execute_eq_iff`: when there is an entry for every output.
-/

namespace TensorLowering

namespace Program

variable {program : Program} {erf : ErrorFunction} {inputs out : NameMap Tensor} {steps : List Step}

/-- An execution that succeeds runs all steps and then takes the outputs out of their slots. -/
theorem exists_of_execute (h : program.execute erf inputs = .ok out) :
    ∃ values, runSteps erf inputs program.steps [] = (values, .ok ()) ∧
      program.takeOutputs program.outputs (values.map some) .empty = .ok out := by
  rw [execute] at h
  rcases hrun : runSteps erf inputs program.steps [] with ⟨values, fault | ⟨⟩⟩
  · rw [hrun] at h
    cases h
  · rw [hrun] at h
    exact ⟨values, rfl, h⟩

/-- The value that the step with an identifier has after a run. -/
def valueOf? (program : Program) (erf : ErrorFunction) (inputs : NameMap Tensor) (id : String) :
    Option Tensor := do
  let slot ← program.steps.findIdx? (·.id == id)
  (runSteps erf inputs program.steps []).1[slot]?

/-- The values that a run takes out of the slots, each under the name of its step. -/
theorem takeOutputs_eq_ok {slots : List Nat} (hnodup : slots.Nodup) {left : List (Option Tensor)}
    {results : NameMap Tensor} (h : program.takeOutputs slots left results = .ok out) :
    ∃ entries : List (String × Tensor),
      List.Forall₂ (fun slot entry => ∃ s, program.steps[slot]? = some s ∧
        s.outputName = entry.1 ∧ left[slot]? = some (some entry.2)) slots entries ∧
      out = entries.foldl (fun m entry => m.insert entry.1 entry.2) results := by
  induction slots generalizing left results with
  | nil =>
      rw [takeOutputs] at h
      exact ⟨[], .nil, (Except.ok.inj h).symm⟩
  | cons slot rest ih =>
      obtain ⟨hnot, hrest⟩ := List.nodup_cons.1 hnodup
      rw [takeOutputs] at h
      obtain ⟨s, hs, h⟩ := Outcome.bind_eq_ok_iff.1 h
      rw [Outcome.ofOption_eq_ok_iff] at hs
      cases hvalue : left[slot]?.join with
      | none => simp [hvalue, failExecution] at h
      | some value =>
          simp only [hvalue] at h
          obtain ⟨entries, hentries, rfl⟩ := ih hrest h
          refine ⟨(s.outputName, value) :: entries, .cons ⟨s, hs, rfl, ?_⟩ ?_, rfl⟩
          · exact Option.join_eq_some_iff.1 hvalue
          · -- the other slots are as they were
            apply forall₂_of_getElem? hentries.length_eq
            intro i other entry hother hentry
            obtain ⟨entry', hentry', s', hs', hname, hkept⟩ := exists_right_of_forall₂ hentries hother
            obtain rfl := Option.some.inj (hentry.symm.trans hentry')
            have hne : slot ≠ other := by
              rintro rfl
              exact hnot (List.mem_of_getElem? hother)
            rw [List.getElem?_set_ne hne] at hkept
            exact ⟨s', hs', hname, hkept⟩

/-- The step with the identifier of a primitive stands in the slot of the primitive. -/
theorem findIdx?_id {order : List Primitive} (hsteps : stepsOf order = .ok program.steps)
    (hnodup : (order.map Primitive.id).Nodup) {slot : Nat} {p : Primitive}
    (hp : order[slot]? = some p) : program.steps.findIdx? (·.id == p.id) = some slot := by
  have hids := ids_of_stepsOf hsteps
  have hslot : (program.steps.map Step.id)[slot]? = some p.id := by
    rw [hids, List.getElem?_map, hp, Option.map_some]
  obtain ⟨hlt, hid⟩ := List.getElem?_eq_some_iff.1 hslot
  rw [List.getElem_map] at hid
  rw [List.length_map] at hlt
  rw [List.findIdx?_eq_some_iff_getElem]
  refine ⟨hlt, by simpa using hid, ?_⟩
  intro j hj hsame
  -- identifiers are distinct, so no earlier step has this one
  have hother : (program.steps.map Step.id)[j]? = some p.id := by
    rw [List.getElem?_map, List.getElem?_eq_getElem (Nat.lt_trans hj hlt), Option.map_some,
      beq_iff_eq.1 hsame]
  have hj' : j < (program.steps.map Step.id).length := (List.getElem?_eq_some_iff.1 hother).1
  exact Nat.ne_of_lt hj
    ((List.getElem?_inj hj' (hids ▸ hnodup)).1 (hother.trans hslot.symm))

theorem valueOf?_eq {order : List Primitive} (hsteps : stepsOf order = .ok program.steps)
    (hnodup : (order.map Primitive.id).Nodup) {slot : Nat} {p : Primitive}
    (hp : order[slot]? = some p) :
    program.valueOf? erf inputs p.id = (runSteps erf inputs program.steps []).1[slot]? := by
  rw [valueOf?, findIdx?_id hsteps hnodup hp]
  rfl

/-- The slots of the outputs are those of the primitives that are handed out, each under its name. -/
theorem exists_handedOut {t : Topology} (hcompile : compile t = .ok program) :
    ∃ ps : List Primitive, ps.Nodup ∧
      (∀ p, p ∈ ps ↔ p ∈ t.primitives ∧ p.HandedOut t.primitives) ∧
      List.Forall₂ (fun slot p => ∃ s, program.steps[slot]? = some s ∧ s.outputName = p.outputName ∧
        ∀ erf inputs,
          program.valueOf? erf inputs p.id = (runSteps erf inputs program.steps []).1[slot]?)
        program.outputs ps := by
  obtain ⟨order, hschedule, hsteps, -, houtputs⟩ := compile_eq_ok_iff.1 hcompile
  have hperm := Topology.schedule_perm hschedule
  have hmem : ∀ q, q ∈ order ↔ q ∈ t.primitives := fun q => hperm.mem_iff
  have hnodup : (order.map Primitive.id).Nodup := (hperm.map _).nodup_iff.2 t.distinct
  have hhanded : ∀ q, Primitive.HandedOut order q ↔ Primitive.HandedOut t.primitives q := by
    intro q
    simp only [Primitive.HandedOut, hmem]
  have hslots : ∀ slot, slot ∈ program.outputs ↔
      ∃ p, order[slot]? = some p ∧ p.HandedOut t.primitives := by
    intro slot
    simp only [houtputs, mem_outputsOf_iff hsteps hnodup, hhanded]
  have hdistinct : program.outputs.Nodup := houtputs ▸ nodup_outputsOf program.steps
  have hpresent : ∀ slot ∈ program.outputs, ∃ p, order[slot]? = some p := by
    intro slot hslot
    obtain ⟨p, hp, -⟩ := (hslots slot).1 hslot
    exact ⟨p, hp⟩
  obtain ⟨ps, hps⟩ := Outcome.exists_mapM_eq_some hpresent
  have hall := Outcome.mapM_eq_some_iff.1 hps
  have hfilter : program.outputs.filterMap (order[·]?) = ps := Topology.filterMap_of_forall₂ hall
  refine ⟨ps, ?_, ?_, ?_⟩
  · rw [← hfilter]
    apply hdistinct.filterMap
    intro i j p hi hj
    have hlt := (List.getElem?_eq_some_iff.1 hi).1
    exact (List.getElem?_inj hlt (hnodup.of_map _)).1 (hi.trans hj.symm)
  · intro p
    rw [← hfilter, List.mem_filterMap]
    constructor
    · rintro ⟨slot, hslot, hp⟩
      obtain ⟨q, hq, hout⟩ := (hslots slot).1 hslot
      obtain rfl := Option.some.inj (hp.symm.trans hq)
      exact ⟨(hmem p).1 (List.mem_of_getElem? hp), hout⟩
    · rintro ⟨hp, hout⟩
      obtain ⟨slot, hslot⟩ := List.mem_iff_getElem?.1 ((hmem p).2 hp)
      exact ⟨slot, (hslots slot).2 ⟨p, hslot, hout⟩, hslot⟩
  · refine hall.imp fun slot p hp => ?_
    obtain ⟨s, hs, hstep⟩ := (represents_of_stepsOf hsteps).2 slot p hp
    refine ⟨s, hs, ?_, fun _ _ => valueOf?_eq hsteps hnodup hp⟩
    rw [Step.outputName, Step.isResult, hstep.originType_eq, hstep.originName_eq, hstep.id_eq]
    rfl

/-- No two outputs have one name exactly when no two primitives are handed out under one. -/
theorem nodup_outputNames_iff {t : Topology} (hcompile : compile t = .ok program) :
    program.outputNames.Nodup ↔ ∀ p ∈ t.primitives, p.HandedOut t.primitives →
      ∀ q ∈ t.primitives, q.HandedOut t.primitives → p.outputName = q.outputName → p = q := by
  obtain ⟨ps, hnodup, hmem, hall⟩ := exists_handedOut hcompile
  have hnames : program.outputNames = ps.map Primitive.outputName := by
    apply Topology.filterMap_of_forall₂
    rw [List.forall₂_map_right_iff]
    refine hall.imp fun slot p hp => ?_
    obtain ⟨s, hs, hname, -⟩ := hp
    rw [hs, Option.map_some, hname]
  rw [hnames, List.nodup_map_iff_inj_on hnodup]
  simp only [hmem, and_imp]

/-- A run hands out the values of the primitives that are handed out, in the order of the program,
each under the name of its primitive. -/
theorem exists_entries {t : Topology} (hcompile : compile t = .ok program)
    (hrun : program.execute erf inputs = .ok out) :
    ∃ (ps : List Primitive) (entries : List (String × Tensor)), ps.Nodup ∧
      (∀ p, p ∈ ps ↔ p ∈ t.primitives ∧ p.HandedOut t.primitives) ∧
      List.Forall₂ (fun p entry => p.outputName = entry.1 ∧
        program.valueOf? erf inputs p.id = some entry.2) ps entries ∧
      entries.length = program.outputs.length ∧ out = .ofList entries := by
  obtain ⟨ps, hnodup, hmem, hall⟩ := exists_handedOut hcompile
  have hdistinct : program.outputs.Nodup := by
    obtain ⟨-, -, -, -, houtputs⟩ := compile_eq_ok_iff.1 hcompile
    exact houtputs ▸ nodup_outputsOf program.steps
  obtain ⟨values, hvalues, hfinish⟩ := exists_of_execute hrun
  obtain ⟨entries, hentries, rfl⟩ := takeOutputs_eq_ok hdistinct hfinish
  refine ⟨ps, entries, hnodup, hmem, ?_, hentries.length_eq.symm, rfl⟩
  apply forall₂_of_getElem? (hall.length_eq.symm.trans hentries.length_eq)
  intro i p entry hp hentry
  obtain ⟨slot, hslot, s, hs, hname, hvalueOf⟩ := exists_left_of_forall₂ hall hp
  obtain ⟨entry', hentry', s', hs', hname', hvalue⟩ := exists_right_of_forall₂ hentries hslot
  obtain rfl := Option.some.inj (hentry.symm.trans hentry')
  obtain rfl := Option.some.inj (hs.symm.trans hs')
  refine ⟨hname.symm.trans hname', ?_⟩
  rw [hvalueOf, hvalues]
  simpa using hvalue

theorem names_of_entries {ps : List Primitive} {entries : List (String × Tensor)}
    (h : List.Forall₂ (fun p entry => p.outputName = entry.1 ∧
      program.valueOf? erf inputs p.id = some entry.2) ps entries) :
    entries.map Prod.fst = ps.map Primitive.outputName := by
  apply Eq.symm
  rw [← List.forall₂_eq_eq_eq, List.forall₂_map_left_iff, List.forall₂_map_right_iff]
  exact h.imp fun p entry hentry => hentry.1

section Execute

variable {t : Topology} (hcompile : compile t = .ok program)
  (hrun : program.execute erf inputs = .ok out)
include hcompile hrun

/-- A value is kept when no other primitive is handed out under the name. -/
theorem get?_execute {p : Primitive} (hp : p ∈ t.primitives) (hout : p.HandedOut t.primitives)
    (hunique : ∀ q ∈ t.primitives, q.HandedOut t.primitives → q.outputName = p.outputName → q = p) :
    ∃ value, program.valueOf? erf inputs p.id = some value ∧
      out.get? p.outputName = some value := by
  obtain ⟨ps, entries, -, hmem, hentries, -, rfl⟩ := exists_entries hcompile hrun
  obtain ⟨i, hi⟩ := List.mem_iff_getElem?.1 ((hmem p).2 ⟨hp, hout⟩)
  obtain ⟨entry, hentry, hname, hvalue⟩ := exists_right_of_forall₂ hentries hi
  refine ⟨entry.2, hvalue, ?_⟩
  rw [hname]
  apply NameMap.get?_ofList_of_unique (List.mem_of_getElem? hentry)
  intro other hother hsame
  obtain ⟨j, hj⟩ := List.mem_iff_getElem?.1 hother
  obtain ⟨q, hq, hqname, hqvalue⟩ := exists_left_of_forall₂ hentries hj
  obtain ⟨hqmem, hqout⟩ := (hmem q).1 (List.mem_of_getElem? hq)
  obtain rfl := hunique q hqmem hqout (hqname.trans (hsame.trans hname.symm))
  exact Option.some.inj (hqvalue.symm.trans hvalue)

/-- There is an entry for every output exactly when no two primitives are handed out under one
name. -/
theorem size_execute_eq_iff : out.size = program.outputs.length ↔
    ∀ p ∈ t.primitives, p.HandedOut t.primitives → ∀ q ∈ t.primitives, q.HandedOut t.primitives →
      p.outputName = q.outputName → p = q := by
  obtain ⟨ps, entries, hnodup, hmem, hentries, hlength, rfl⟩ := exists_entries hcompile hrun
  rw [← hlength, NameMap.size_ofList_eq_iff, names_of_entries hentries,
    List.nodup_map_iff_inj_on hnodup]
  simp only [hmem, and_imp]

end Execute

end Program

end TensorLowering
