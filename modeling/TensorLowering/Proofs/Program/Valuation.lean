import TensorLowering.Program.Execution
import TensorLowering.Proofs.Program.Compilation

/-!
# What programs compute

A valuation gives primitives a tensor each, computed from the tensors of the primitives that they
read. It does not say in which order they are computed, so a program runs to the same tensors
however its primitives were scheduled.

## Main statements

* `Valued.satisfied`: tensors that are computed one after the other are a valuation.
* `Program.exists_runSteps`: a program runs to the tensors of a valuation.
* `Program.exists_execute`: what it then hands out under the name of a result.
-/

namespace TensorLowering

/-- Every value of one map is the value in the other. -/
def NameMap.Extends {α : Type} (m m' : NameMap α) : Prop :=
  ∀ name value, m.get? name = some value → m'.get? name = some value

namespace NameMap.Extends

variable {α : Type} {m m' m'' : NameMap α}

theorem refl (m : NameMap α) : m.Extends m := fun _ _ h => h

theorem trans (h : m.Extends m') (h' : m'.Extends m'') : m.Extends m'' :=
  fun name value hvalue => h' name value (h name value hvalue)

end NameMap.Extends

/-- Sources whose primitives have the given tensors. -/
def Reads (v : NameMap Tensor) (sources : List Source) (args : List Tensor) : Prop :=
  List.Forall₂ (fun source arg => v.get? source.id = some arg) sources args

theorem Reads.extend {v v' : NameMap Tensor} {sources : List Source} {args : List Tensor}
    (h : Reads v sources args) (hextends : v.Extends v') : Reads v' sources args :=
  List.Forall₂.imp (fun (source : Source) arg hread => hextends source.id arg hread) h

namespace Primitive

/-- The step of a primitive whose inputs have no slots yet. -/
def detached (p : Primitive) : Step := ⟨p.id, p.originName, p.originType, p.payload, [], none⟩

/-- The name of the primitive among the outputs of a program. -/
def outputName (p : Primitive) : String := p.detached.outputName

/-- True of the primitives that a program hands out: the results, and all others, except constants,
that no primitive reads. -/
def HandedOut (ps : List Primitive) (p : Primitive) : Prop :=
  p.detached.isResult = true ∨
    (∀ user ∈ ps, ∀ source ∈ user.inputs, source.id ≠ p.id) ∧ p.payload.isData = false

/-- The tensor that a primitive computes from the tensors that it reads. -/
inductive Computes (erf : ErrorFunction) (inputs : NameMap Tensor) (p : Primitive)
    (args : List Tensor) (t : Tensor) :
    Prop where
  | input {type : TensorType} (payload : p.payload = .inputLayout type)
      (bound : inputs.get? p.originName = some t) (fits : t.matchesType type = true) :
      Computes erf inputs p args t
  | constant {literal : Literal} (payload : p.payload = .data literal)
      (read : Tensor.ofLiteral literal = .ok t) : Computes erf inputs p args t
  | work (computed : p.detached.compute erf args = .ok t) : Computes erf inputs p args t

/-- The tensor of a primitive is what it computes from the tensors of the primitives that it
reads. -/
def Satisfied (erf : ErrorFunction) (inputs v : NameMap Tensor) (p : Primitive) : Prop :=
  ∃ args t, Reads v p.inputs args ∧ p.Computes erf inputs args t ∧ v.get? p.id = some t

theorem Satisfied.extend {erf : ErrorFunction} {inputs v v' : NameMap Tensor} {p : Primitive}
    (h : p.Satisfied erf inputs v)
    (hextends : v.Extends v') : p.Satisfied erf inputs v' := by
  obtain ⟨args, t, hreads, hcomputes, ht⟩ := h
  exact ⟨args, t, hreads.extend hextends, hcomputes, hextends _ _ ht⟩

end Primitive

/-- The tensors of primitives that are computed one after the other. -/
inductive Valued (erf : ErrorFunction) (inputs : NameMap Tensor) :
    List Primitive → NameMap Tensor → Prop where
  | nil : Valued erf inputs [] .empty
  | snoc {ps : List Primitive} {v : NameMap Tensor} {p : Primitive} {args : List Tensor}
      {t : Tensor} (before : Valued erf inputs ps v) (fresh : p.id ∉ ps.map Primitive.id)
      (reads : Reads v p.inputs args) (computes : p.Computes erf inputs args t) :
      Valued erf inputs (ps ++ [p]) (v.insert p.id t)

namespace Valued

variable {erf : ErrorFunction} {inputs v : NameMap Tensor} {ps : List Primitive}

theorem id_mem (h : Valued erf inputs ps v) {id : String} {t : Tensor} (ht : v.get? id = some t) :
    id ∈ ps.map Primitive.id := by
  induction h with
  | nil => simp at ht
  | @snoc ps v p args t' _ _ _ _ ih =>
      rw [NameMap.get?_insert] at ht
      rw [List.map_append, List.mem_append]
      by_cases hid : id = p.id
      · exact .inr (by simp [hid])
      · rw [if_neg hid] at ht
        exact .inl (ih ht)

theorem extends_insert (h : Valued erf inputs ps v) {id : String} (hfresh : id ∉ ps.map Primitive.id)
    (t : Tensor) : v.Extends (v.insert id t) := by
  intro other value hvalue
  have hne : other ≠ id := by
    rintro rfl
    exact hfresh (h.id_mem hvalue)
  rw [NameMap.get?_insert, if_neg hne, hvalue]

/-- Tensors that are computed one after the other are a valuation of all the primitives. -/
theorem satisfied (h : Valued erf inputs ps v) : ∀ p ∈ ps, p.Satisfied erf inputs v := by
  induction h with
  | nil => simp
  | @snoc ps v p args t before fresh reads computes ih =>
      have hextends := before.extends_insert fresh t
      intro q hq
      rcases List.mem_append.1 hq with hold | hnew
      · exact (ih q hold).extend hextends
      · obtain rfl := List.mem_singleton.1 hnew
        exact ⟨args, t, reads.extend hextends, computes, by rw [NameMap.get?_insert, if_pos rfl]⟩

/-- One more primitive gets what it computes, and the others keep their tensors. -/
theorem exists_snoc (h : Valued erf inputs ps v) {p : Primitive} {args : List Tensor} {t : Tensor}
    (hfresh : p.id ∉ ps.map Primitive.id) (hreads : Reads v p.inputs args)
    (hcomputes : p.Computes erf inputs args t) :
    ∃ v', Valued erf inputs (ps ++ [p]) v' ∧ v.Extends v' ∧ v'.get? p.id = some t :=
  ⟨v.insert p.id t, .snoc h hfresh hreads hcomputes, h.extends_insert hfresh t, by
    rw [NameMap.get?_insert, if_pos rfl]⟩

end Valued

namespace Step

variable {erf : ErrorFunction} {inputs v : NameMap Tensor} {before : List Step} {p : Primitive}
  {s : Step}
    {args : List Tensor}

theorem compute_eq (hid : s.id = p.id) (hpayload : s.payload = p.payload) (args : List Tensor) :
    s.compute erf args = p.detached.compute erf args := by
  rcases s with ⟨id, originName, originType, payload, slots, constant⟩
  cases hid
  cases hpayload
  rfl

/-- Only work that is left for the run is computed from arguments. -/
theorem constantOf_of_compute {t : Tensor} (h : p.detached.compute erf args = .ok t) :
    constantOf p = .ok none ∧ ∀ type, p.payload ≠ .inputLayout type := by
  rcases p with ⟨id, payload, sources, originName, originType⟩
  cases payload with
  | inputLayout type => simp [compute, Primitive.detached, failExecution] at h
  | data literal => simp [compute, Primitive.detached, failExecution] at h
  | customKernel spec => simp [compute, Primitive.detached, failExecution] at h
  | _ => exact ⟨rfl, by simp⟩

/-- The slots of a step hold the tensors of the primitives that it reads. -/
theorem mapM_slots (cause : EngineError) {values : List Tensor} {sources : List Source}
    {slots : List Nat} (hslots : List.Forall₂ (fun source slot => source.output = 0 ∧
      (before[slot]?).map Step.id = some source.id) sources slots)
    (hvalues : List.Forall₂ (fun (s : Step) t => v.get? s.id = some t) before values)
    (hreads : Reads v sources args) :
    slots.mapM (fun slot => Outcome.ofOptionOr cause values[slot]?) = .ok args := by
  rw [Outcome.mapM_eq_ok_iff]
  induction hslots generalizing args with
  | nil =>
      cases hreads
      exact .nil
  | cons hslot _ ih =>
      cases hreads with
      | cons hread hreads =>
          refine .cons ?_ (ih hreads)
          obtain ⟨s, hs, hid⟩ := Option.map_eq_some_iff.1 hslot.2
          obtain ⟨hlt, rfl⟩ := List.getElem?_eq_some_iff.1 hs
          have hlt' := hvalues.length_eq ▸ hlt
          have hvalue := hvalues.get hlt hlt'
          rw [Outcome.ofOptionOr_eq_ok_iff, List.getElem?_eq_getElem hlt']
          simpa [hid, hread] using hvalue.symm

/-- A step computes the tensor of its primitive from the tensors of the steps before. -/
theorem exists_value (hs : Represents before p s) {values : List Tensor}
    (hvalues : List.Forall₂ (fun (s : Step) t => v.get? s.id = some t) before values)
    (hp : p.Satisfied erf inputs v) :
    ∃ t, s.value erf inputs values = .ok t ∧ v.get? s.id = some t := by
  obtain ⟨args, t, hreads, hcomputes, ht⟩ := hp
  refine ⟨t, ?_, hs.id_eq ▸ ht⟩
  have hconstant := hs.constant
  cases hcomputes with
  | input payload bound fits =>
      rw [value, hs.payload_eq, payload]
      simp [bindInput, hs.originName_eq, bound, fits]
  | constant payload read =>
      have hsome : s.constant = some t := by
        simpa [constantOf, payload, read, Outcome.bind_eq_ok_iff, eq_comm] using hconstant
      rw [value, hs.payload_eq, payload, hsome]
  | work computed =>
      obtain ⟨hnone, hinput⟩ := constantOf_of_compute computed
      have hnone : s.constant = none := (Except.ok.inj (hnone.symm.trans hconstant)).symm
      have hargs := mapM_slots (.execution (.emptySlot s.id)) hs.inputs hvalues hreads
      have hcompute : s.compute erf args = .ok t :=
        (compute_eq hs.id_eq hs.payload_eq args).trans computed
      rw [value, hnone]
      split
      · next type htype => exact absurd (hs.payload_eq ▸ htype) (hinput type)
      · next hsome _ => cases hsome
      · rw [hargs]
        exact hcompute

end Step

namespace Program

variable {erf : ErrorFunction} {inputs v : NameMap Tensor} {steps : List Step}

/-- A run that reaches its end has a value for every step. -/
theorem length_of_runSteps {steps : List Step} {values final : List Tensor}
    (h : runSteps erf inputs steps values = (final, .ok ())) :
    final.length = values.length + steps.length := by
  induction steps generalizing values with
  | nil =>
      rw [runSteps] at h
      rw [← (Prod.mk.inj h).1, List.length_nil, Nat.add_zero]
  | cons s rest ih =>
      rw [runSteps] at h
      split at h
      · rw [ih h, List.length_append, List.length_singleton, List.length_cons]
        omega
      · cases (Prod.mk.inj h).2

theorem runSteps_append (erf : ErrorFunction) (inputs : NameMap Tensor) (xs ys : List Step)
    (values : List Tensor) :
    runSteps erf inputs (xs ++ ys) values =
      match runSteps erf inputs xs values with
      | (mid, .ok ()) => runSteps erf inputs ys mid
      | (mid, .error fault) => (mid, .error fault) := by
  induction xs generalizing values with
  | nil => rfl
  | cons s xs ih =>
      rw [List.cons_append, runSteps, runSteps]
      split
      · exact ih _
      · rfl

/-- A program runs to the tensors of a valuation, whatever order its steps are in. -/
theorem exists_runSteps {order : List Primitive} (hsteps : stepsOf order = .ok steps)
    (hall : ∀ p ∈ order, p.Satisfied erf inputs v) :
    ∃ values, runSteps erf inputs steps [] = (values, .ok ()) ∧
      List.Forall₂ (fun s t => v.get? s.id = some t) steps values := by
  induction order using List.reverseRecOn generalizing steps with
  | nil =>
      cases hsteps
      exact ⟨[], rfl, .nil⟩
  | append_singleton order p ih =>
      obtain ⟨before, s, hbefore, hs, rfl⟩ := stepsOf_append_singleton_eq_ok_iff.1 hsteps
      obtain ⟨values, hrun, hvalues⟩ := ih hbefore fun q hq => hall q (List.mem_append_left _ hq)
      obtain ⟨t, hvalue, ht⟩ := Step.exists_value (Step.represents_of_ofPrimitive hs) hvalues
        (hall p (List.mem_append_right _ (List.mem_singleton_self p)))
      refine ⟨values ++ [t], ?_, List.rel_append hvalues (.cons ht .nil)⟩
      rw [runSteps_append, hrun]
      simp only [runSteps, hvalue]

/-- Outputs are taken out when their slots are full. Each name then has the tensor that all the
outputs under that name have. -/
theorem exists_takeOutputs {program : Program} {slots : List Nat} {left : List (Option Tensor)}
    (hnodup : slots.Nodup) (results : NameMap Tensor)
    (hfull : ∀ slot ∈ slots, ∃ s t, program.steps[slot]? = some s ∧ left[slot]? = some (some t)) :
    ∃ out, program.takeOutputs slots left results = .ok out ∧ ∀ name t,
      (∀ slot ∈ slots, ∀ s, program.steps[slot]? = some s → s.outputName = name →
        left[slot]? = some (some t)) →
      ((∃ slot ∈ slots, ∃ s, program.steps[slot]? = some s ∧ s.outputName = name) ∨
        results.get? name = some t) →
      out.get? name = some t := by
  induction slots generalizing left results with
  | nil => exact ⟨results, rfl, by simp⟩
  | cons slot rest ih =>
      obtain ⟨hnot, hrest⟩ := List.nodup_cons.1 hnodup
      obtain ⟨⟨s, t, hs, ht⟩, hothers⟩ := List.forall_mem_cons.1 hfull
      -- the other slots are as they were
      have hkept : ∀ other ∈ rest, (left.set slot none)[other]? = left[other]? := by
        intro other hother
        have hne : slot ≠ other := by
          rintro rfl
          exact hnot hother
        rw [List.getElem?_set_ne hne]
      have hrestfull : ∀ other ∈ rest, ∃ s t, program.steps[other]? = some s ∧
          (left.set slot none)[other]? = some (some t) := by
        intro other hother
        rw [hkept other hother]
        exact hothers other hother
      obtain ⟨out, hout, hnames⟩ := ih hrest (results.insert s.outputName t) hrestfull
      refine ⟨out, ?_, ?_⟩
      · rw [takeOutputs, hs, ht]
        exact hout
      · intro name value hagree hsome
        obtain ⟨hfirst, hagree⟩ := List.forall_mem_cons.1 hagree
        apply hnames name value
        · intro other hother
          rw [hkept other hother]
          exact hagree other hother
        · by_cases hname : s.outputName = name
          · have hvalue := hfirst s hs hname
            rw [ht] at hvalue
            refine .inr ?_
            rw [NameMap.get?_insert, if_pos hname.symm]
            exact Option.some.inj hvalue
          · rcases hsome with ⟨other, hother, s', hs', hname'⟩ | hbefore
            · rcases List.mem_cons.1 hother with rfl | hother
              · obtain rfl := Option.some.inj (hs.symm.trans hs')
                exact absurd hname' hname
              · exact .inl ⟨other, hother, s', hs', hname'⟩
            · refine .inr ?_
              rw [NameMap.get?_insert, if_neg (Ne.symm hname), hbefore]

section Outputs

variable {order : List Primitive} (hsteps : stepsOf order = .ok steps)
  (hnodup : (order.map Primitive.id).Nodup)
include hsteps hnodup

/-- A slot is read by a step exactly when its primitive is read by a primitive. -/
theorem exists_mem_inputs_iff {slot : Nat} {p : Primitive} (hp : order[slot]? = some p) :
    (∃ user ∈ steps, slot ∈ user.inputs) ↔ ∃ user ∈ order, ∃ source ∈ user.inputs,
      source.id = p.id := by
  obtain ⟨hlength, -⟩ := represents_of_stepsOf hsteps
  constructor
  · rintro ⟨s, hs, hslot⟩
    obtain ⟨j, hj⟩ := List.mem_iff_getElem?.1 hs
    obtain ⟨hlt, -⟩ := List.getElem?_eq_some_iff.1 hj
    have huser : order[j]? = some order[j] := List.getElem?_eq_getElem (hlength ▸ hlt)
    obtain ⟨k, hk⟩ := List.mem_iff_getElem?.1 hslot
    obtain ⟨source, hsource, hid⟩ := exists_left_of_forall₂ (slots_of_stepsOf hsteps huser hj) hk
    rw [hp] at hid
    exact ⟨_, List.mem_of_getElem? huser, source, List.mem_of_getElem? hsource,
      (Option.some.inj hid).symm⟩
  · rintro ⟨user, huser, source, hsource, hid⟩
    obtain ⟨j, hj⟩ := List.mem_iff_getElem?.1 huser
    obtain ⟨hlt, -⟩ := List.getElem?_eq_some_iff.1 hj
    have hs : steps[j]? = some steps[j] := List.getElem?_eq_getElem (hlength.symm ▸ hlt)
    obtain ⟨k, hk⟩ := List.mem_iff_getElem?.1 hsource
    obtain ⟨other, hother, hread⟩ := exists_right_of_forall₂ (slots_of_stepsOf hsteps hj hs) hk
    -- identifiers are distinct, so the slot that is read is the slot of the primitive
    have hsame : other = slot := by
      have hslot : (order.map Primitive.id)[slot]? = some p.id := by
        rw [List.getElem?_map, hp, Option.map_some]
      rw [← List.getElem?_map, hid, ← hslot] at hread
      have hlt' : slot < (order.map Primitive.id).length := (List.getElem?_eq_some_iff.1 hslot).1
      exact ((List.getElem?_inj hlt' hnodup).1 hread.symm).symm
    exact ⟨steps[j], List.mem_of_getElem? hs, hsame ▸ List.mem_of_getElem? hother⟩

/-- The slots that are outputs are those of the primitives that are handed out. -/
theorem mem_outputsOf_iff {slot : Nat} :
    slot ∈ outputsOf steps ↔ ∃ p, order[slot]? = some p ∧ p.HandedOut order := by
  obtain ⟨hlength, hall⟩ := represents_of_stepsOf hsteps
  rw [outputsOf, List.mem_filter, List.mem_range, hlength]
  cases hp : order[slot]? with
  | none =>
      have hge := List.getElem?_eq_none_iff.1 hp
      constructor
      · rintro ⟨hlt, -⟩
        omega
      · rintro ⟨_, h, -⟩
        cases h
  | some p =>
      obtain ⟨s, hs, hrepresents⟩ := hall slot p hp
      have hlt : slot < order.length := (List.getElem?_eq_some_iff.1 hp).1
      have hresult : s.isResult = p.detached.isResult := by
        rw [Step.isResult, hrepresents.originType_eq]
        rfl
      have hreads := exists_mem_inputs_iff hsteps hnodup hp
      simp only [hs, hlt, true_and, hresult, hrepresents.payload_eq, Option.some.injEq,
        exists_eq_left', Primitive.HandedOut, Bool.or_eq_true, Bool.and_eq_true, Bool.not_eq_true',
        List.any_eq_false,
        List.contains_eq_mem, decide_eq_true_eq]
      have hunread := not_congr hreads
      simp only [not_exists, not_and] at hunread
      exact or_congr_right (and_congr_left fun _ => hunread)

end Outputs

theorem nodup_outputsOf (steps : List Step) : (outputsOf steps).Nodup := List.nodup_range.filter _

/-- A program hands out the tensors of a valuation: under the name of a primitive that is handed
out, when no other has the name, stands its tensor. -/
theorem exists_execute {t : Topology} {program : Program} (hcompile : compile t = .ok program)
    (hall : ∀ p ∈ t.primitives, p.Satisfied erf inputs v) :
    ∃ out, program.execute erf inputs = .ok out ∧ ∀ p ∈ t.primitives, p.HandedOut t.primitives →
      (∀ q ∈ t.primitives, q.HandedOut t.primitives → q.outputName = p.outputName → q = p) →
      out.get? p.outputName = v.get? p.id := by
  obtain ⟨order, hschedule, hsteps, -, houtputs⟩ := compile_eq_ok_iff.1 hcompile
  have hperm := Topology.schedule_perm hschedule
  have hmem : ∀ q, q ∈ order ↔ q ∈ t.primitives := fun q => hperm.mem_iff
  have hnodup : (order.map Primitive.id).Nodup := (hperm.map _).nodup_iff.2 t.distinct
  have hhanded : ∀ q, Primitive.HandedOut order q ↔ Primitive.HandedOut t.primitives q := by
    intro q
    simp only [Primitive.HandedOut, hmem]
  obtain ⟨hlength, hrepresents⟩ := represents_of_stepsOf hsteps
  obtain ⟨values, hrun, hvalues⟩ := exists_runSteps hsteps fun q hq => hall q ((hmem q).1 hq)
  -- every slot has its tensor, and the name that its primitive has among the outputs
  have hslots : ∀ (slot : Nat) (q : Primitive), order[slot]? = some q →
      ∃ (s : Step) (value : Tensor),
      program.steps[slot]? = some s ∧ s.outputName = q.outputName ∧
      (values.map some)[slot]? = some (some value) ∧ v.get? q.id = some value := by
    intro slot q hq
    obtain ⟨s, hs, hstep⟩ := hrepresents slot q hq
    obtain ⟨value, hvalue, hget⟩ := exists_right_of_forall₂ hvalues hs
    refine ⟨s, value, hs, ?_, by simp [hvalue], hstep.id_eq ▸ hget⟩
    rw [Step.outputName, Step.isResult, hstep.originType_eq, hstep.originName_eq, hstep.id_eq]
    rfl
  have hfull : ∀ slot ∈ program.outputs, ∃ s value, program.steps[slot]? = some s ∧
      (values.map some)[slot]? = some (some value) := by
    intro slot hslot
    rw [houtputs, mem_outputsOf_iff hsteps hnodup] at hslot
    obtain ⟨q, hq, -⟩ := hslot
    obtain ⟨s, value, hs, -, hvalue, -⟩ := hslots slot q hq
    exact ⟨s, value, hs, hvalue⟩
  have hdistinct : program.outputs.Nodup := houtputs ▸ nodup_outputsOf program.steps
  obtain ⟨out, hout, hnames⟩ := exists_takeOutputs hdistinct .empty hfull
  refine ⟨out, ?_, ?_⟩
  · rw [execute, hrun]
    exact hout
  · intro p hp hout hunique
    obtain ⟨slot, hslot⟩ := List.mem_iff_getElem?.1 ((hmem p).2 hp)
    obtain ⟨s, value, hs, hname, hvalue, hget⟩ := hslots slot p hslot
    rw [hget]
    apply hnames
    · intro other hother s' hs' hname'
      obtain ⟨q, hq, hqout⟩ := (mem_outputsOf_iff hsteps hnodup).1 (houtputs ▸ hother)
      obtain ⟨s'', value', hs'', hname'', hvalue', hget'⟩ := hslots other q hq
      obtain rfl := Option.some.inj (hs'.symm.trans hs'')
      obtain rfl := hunique q ((hmem q).1 (List.mem_of_getElem? hq)) ((hhanded q).1 hqout)
        (hname''.symm.trans hname')
      obtain rfl := Option.some.inj (hget.symm.trans hget')
      exact hvalue'
    · have hmember : slot ∈ program.outputs := by
        rw [houtputs, mem_outputsOf_iff hsteps hnodup]
        exact ⟨p, hslot, (hhanded p).2 hout⟩
      exact .inl ⟨slot, hmember, s, hs, hname⟩

end Program

end TensorLowering
