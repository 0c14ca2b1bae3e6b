import TensorLowering.Proofs.Lowering.Outputs
import TensorLowering.Proofs.Tensor.Kernels

/-!
# Programs return

A program that was compiled from a lowered graph ends with outputs or with an error, for all inputs
whose run stays with sizes that words can count: every order that lowering emits has each axis once, and
apart from orders only a crop beyond the largest word can make a kernel abort on well-formed arguments.

## Main statements

* `Emits.ordersAxes`: what a node becomes permutes all axes, or none.
* `Step.returns_compute`: a step whose order has each axis once returns on well-formed arguments.
* `Program.returns_execute`: a run that comes to well-formed tensors only returns.
* `Lowerer.execute_returns`: the programs of lowered graphs return.
-/

namespace TensorLowering

open Outcome

/-- If the work is to permute axes, each axis is there once. -/
def Payload.OrdersAxes (payload : Payload) : Prop :=
  ∀ order, payload = .permute order → order.Perm (List.range order.length)

/-- If the work is to crop, a word holds the end of the range. -/
def Payload.cropFits : Payload → Bool
  | .crop _ start length => start + length < UInt64.size
  | _ => true

/-- Positions below their number are all positions, when none occurs twice. -/
theorem perm_range_of_nodup {order : List Nat} (hnodup : order.Nodup)
    (hlt : ∀ axis ∈ order, axis < order.length) : order.Perm (List.range order.length) := by
  have hsub : order.Subperm (List.range order.length) := by
    apply List.subperm_of_subset hnodup
    intro axis haxis
    exact List.mem_range.2 (hlt axis haxis)
  exact hsub.perm_of_length_le (by simp)

/-- Where no axis of an order is marked at its turn, the axes are distinct, and none had a mark that
was set before. -/
theorem Rule.nodup_of_firstRepeated {marks : List Bool} {order : List Nat}
    (h : firstRepeated marks order = .ok none) :
    order.Nodup ∧ ∀ axis ∈ order, marks[axis]? = some false := by
  induction order generalizing marks with
  | nil => simp
  | cons first rest ih =>
      rw [firstRepeated] at h
      obtain ⟨mark, hmark, h⟩ := Outcome.bind_eq_ok_iff.1 h
      rw [Outcome.ofOption_eq_ok_iff] at hmark
      cases mark with
      | true => simp at h
      | false =>
          obtain ⟨hnodup, hrest⟩ := ih h
          -- the mark of the first axis is set from here on, so no later axis is the first
          have hother : ∀ axis ∈ rest, first ≠ axis ∧ marks[axis]? = some false := by
            intro axis haxis
            have hlater := hrest axis haxis
            rw [List.getElem?_set] at hlater
            by_cases heq : first = axis
            · simp [heq] at hlater
            · exact ⟨heq, by simpa [heq] using hlater⟩
          refine ⟨List.nodup_cons.2 ⟨fun hmem => (hother first hmem).1 rfl, hnodup⟩, ?_⟩
          exact List.forall_mem_cons.2 ⟨hmark, fun axis haxis => (hother axis haxis).2⟩

theorem perm_of_swapLastTwo? {rank : Nat} {order : List Nat} (h : swapLastTwo? rank = some order) :
    order.Perm (List.range order.length) := by
  rw [swapLastTwo?] at h
  split at h
  · next htwo =>
    obtain rfl := Option.some.inj h
    apply perm_range_of_nodup
    · rw [List.nodup_append]
      refine ⟨List.nodup_range, ?_, ?_⟩
      · simp
        omega
      · intro a ha b hb
        simp only [List.mem_range, List.mem_cons, List.not_mem_nil, or_false] at ha hb
        omega
    · intro axis haxis
      simp only [List.mem_append, List.mem_range, List.mem_cons, List.not_mem_nil, or_false] at haxis
      simp only [List.length_append, List.length_range, List.length_cons, List.length_nil]
      omega
  · cases h

section Emits

variable {ctx : BuildContext} {n : Node} {identity : String} {sources : List Source} {r : RuleName}

theorem Becomes.ordersAxes {payload : Payload} {inputs : List Source}
    (h : Becomes ctx n sources r payload inputs) : payload.OrdersAxes := by
  intro order horder
  cases h with
  | transpose input ordered length distinct =>
      obtain rfl := Payload.permute.inj horder
      obtain ⟨hnodup, hmarks⟩ := Rule.nodup_of_firstRepeated distinct
      apply perm_range_of_nodup hnodup
      intro axis haxis
      have hlt := (List.getElem?_eq_some_iff.1 (hmarks axis haxis)).1
      rwa [List.length_replicate, ← length] at hlt
  | _ => cases horder

theorem Operand.ordersAxes {side : String} {shape : Shape} {source input : Source} {moved : Bool}
    {ps : List Primitive} (h : Operand n side shape source moved ps input) :
    ∀ p ∈ ps, p.payload.OrdersAxes := by
  cases h with
  | stays => simp
  | moves swap =>
      intro p hp order horder
      obtain rfl := List.mem_singleton.1 hp
      obtain rfl := Payload.permute.inj horder
      exact perm_of_swapLastTwo? swap

theorem ProductTail.ordersAxes {newShapeInference : Bool} {type : TensorType} {ps : List Primitive}
    (h : ProductTail newShapeInference identity type ps) : ∀ p ∈ ps, p.payload.OrdersAxes := by
  cases h with
  | none regime => simp
  | native regime static rank => simp
  | reshape regime static rank =>
      intro p hp order horder
      obtain rfl := List.mem_singleton.1 hp
      cases horder

theorem Crops.ordersAxes {inputs : List Source} {axis output offset : Nat} {types : List TensorType}
    {ps : List Primitive} (h : Crops identity inputs axis output offset types ps) :
    ∀ p ∈ ps, p.payload.OrdersAxes := by
  intro p hp order horder
  obtain ⟨k, hk⟩ := List.mem_iff_getElem?.1 hp
  obtain ⟨-, -, start, length, hpayload⟩ := h.getElem?_eq_some hk
  rw [hpayload] at horder
  cases horder

/-- What a node becomes permutes all axes, or none. -/
theorem Emits.ordersAxes {ps : List Primitive} (h : Emits ctx n identity sources r ps) :
    ∀ p ∈ ps, p.payload.OrdersAxes := by
  cases h with
  | one becomes =>
      intro p hp
      obtain rfl := List.mem_singleton.1 hp
      exact becomes.ordersAxes
  | matMul arity readsA readsB typeA typeB output operandA operandB behind =>
      intro p hp
      simp only [List.mem_append, List.mem_singleton, or_assoc] at hp
      rcases hp with hA | hB | rfl | htail
      · exact operandA.ordersAxes p hA
      · exact operandB.ordersAxes p hB
      · intro order horder
        cases horder
      · exact behind.ordersAxes p htail
  | split arity input reads first located crops => exact crops.ordersAxes

/-- Lowering only emits orders that have each axis once. -/
theorem Lowerer.ordersAxes_of_lower {l : Lowerer} {g : Graph} {options : BuildOptions}
    {lowered : Lowered} (hregistry : l.registry = .standard) (h : l.lower g options = .ok lowered) :
    ∀ p ∈ lowered.topology.primitives, p.payload.OrdersAxes := by
  intro p hp
  rw [(lowered_eq h).2] at hp
  obtain ⟨i, hi, hemitted⟩ := exists_emitted h hregistry (Nat.le_refl _) hp
  have hn : g.nodes[i]? = some g.nodes[i] := List.getElem?_eq_getElem hi
  obtain ⟨-, -, -, -, hemits, hemitted_eq, -, -⟩ := loweredAt_of_lower h hregistry hn
  obtain ⟨p', hp', rfl⟩ := List.mem_map.1 (hemitted_eq ▸ hemitted)
  exact hemits.ordersAxes p' hp'

end Emits

namespace Step

variable {s : Step}

theorem returns_sizesFrom (s : Step) (t : Tensor) : Returns (s.sizesFrom t) := by
  rw [sizesFrom]
  split
  · exact returns_fail _
  · exact Returns.mapM fun value _ =>
      Returns.ite (fun _ => returns_fail _) fun _ => returns_ok _

theorem returns_argument (s : Step) (args : List Tensor) (index : Nat) :
    Returns (s.argument args index) :=
  returns_ofOptionOr _ _

/-- A step whose order has each axis once, and whose range ends in a word, returns on well-formed
arguments. -/
theorem returns_compute (horder : s.payload.OrdersAxes) (hcrop : s.payload.cropFits = true)
    (erf : ErrorFunction) {args : List Tensor} (hargs : ∀ t ∈ args, t.WellFormed) :
    Returns (s.compute erf args) := by
  have hargument : ∀ {index : Nat} {t : Tensor}, s.argument args index = .ok t → t.WellFormed :=
    fun ht => hargs _ (List.mem_of_getElem? (ofOptionOr_eq_ok_iff.1 ht))
  rw [compute]
  split
  · exact (s.returns_argument _ _).bind fun a _ => Tensor.returns_convert _ _
  · exact (s.returns_argument _ _).bind fun a ha => (s.returns_argument _ _).bind fun b hb =>
      Tensor.returns_eltwise _ (hargument ha) (hargument hb)
  · exact (s.returns_argument _ _).bind fun a _ => Tensor.returns_erf _ _
  · exact (s.returns_argument _ _).bind fun a ha => (s.returns_argument _ _).bind fun b hb =>
      Tensor.returns_gemm (hargument ha) (hargument hb) _
  · next order heq =>
    exact (s.returns_argument _ _).bind fun a ha =>
      Tensor.returns_permute (hargument ha) (horder order heq)
  · exact (s.returns_argument _ _).bind fun a _ => Tensor.returns_reshape _ _
  · exact (s.returns_argument _ _).bind fun shape _ => (s.returns_sizesFrom _).bind fun sizes _ =>
      (s.returns_argument _ _).bind fun a _ => Tensor.returns_reshape _ _
  · exact (s.returns_argument _ _).bind fun a ha => Tensor.returns_reduce (hargument ha) _ _ _
  · next axis start length heq =>
    rw [heq] at hcrop
    exact (s.returns_argument _ _).bind fun a ha =>
      Tensor.returns_crop (hargument ha) _ (of_decide_eq_true hcrop)
  · exact Tensor.returns_concat hargs _
  · have hlayer : ∀ scale zeroPoint : Option Tensor, (∀ t ∈ scale, t.WellFormed) →
        (∀ t ∈ zeroPoint, t.WellFormed) → Returns (do
          let a ← s.argument args 0
          let w ← s.argument args 1
          Tensor.fullyConnected a w scale zeroPoint) := by
      intro scale zeroPoint hscale hzeroPoint
      exact (s.returns_argument _ _).bind fun a _ => (s.returns_argument _ _).bind fun w hw =>
        Tensor.returns_fullyConnected (hargument hw) hscale hzeroPoint
    -- the scale and the zero point are arguments, or left out
    have hoptional : ∀ (given : Bool) (index : Nat) (f : Option Tensor → Outcome EngineError Tensor),
        (∀ given : Option Tensor, (∀ t ∈ given, t.WellFormed) → Returns (f given)) →
        Returns (if given = true then some <$> s.argument args index >>= f else pure none >>= f) := by
      intro given index f hf
      refine Returns.ite (fun _ => (s.returns_argument _ _).map.bind fun correction hcorrection => ?_)
        fun _ => hf none (by simp)
      apply hf
      rintro t rfl
      obtain ⟨t', ht', heq⟩ := map_eq_ok_iff.1 hcorrection
      exact Option.some.inj heq ▸ hargument ht'
    exact hoptional _ _ _ fun scale hscale =>
      hoptional _ _ _ fun zeroPoint hzeroPoint => hlayer scale zeroPoint hscale hzeroPoint
  · exact returns_fail _
  · exact returns_fail _
  · exact returns_fail _

theorem returns_bindInput (s : Step) (type : TensorType) (inputs : NameMap Tensor) :
    Returns (s.bindInput type inputs) := by
  rw [bindInput]
  split
  · exact returns_fail _
  · exact Returns.ite (fun _ => returns_ok _) fun _ => returns_fail _

theorem returns_value (horder : s.payload.OrdersAxes) (hcrop : s.payload.cropFits = true)
    (erf : ErrorFunction) (inputs : NameMap Tensor) {values : List Tensor}
    (hvalues : ∀ t ∈ values, t.WellFormed) : Returns (s.value erf inputs values) := by
  rw [value]
  split
  · exact s.returns_bindInput _ _
  · exact returns_ok _
  · refine Returns.bind (Returns.mapM fun slot _ => returns_ofOptionOr _ _) fun args hargs => ?_
    apply returns_compute horder hcrop erf
    intro t ht
    obtain ⟨i, hi⟩ := List.mem_iff_getElem?.1 ht
    obtain ⟨slot, -, hslot⟩ := exists_left_of_forall₂ (mapM_eq_ok_iff.1 hargs) hi
    exact hvalues t (List.mem_of_getElem? (ofOptionOr_eq_ok_iff.1 hslot))

end Step

namespace Program

variable {program : Program}

/-- A run keeps the tensors that it starts behind. -/
theorem mem_runSteps {erf : ErrorFunction} {inputs : NameMap Tensor} {steps : List Step}
    {values : List Tensor} {t : Tensor} (ht : t ∈ values) :
    t ∈ (runSteps erf inputs steps values).1 := by
  induction steps generalizing values with
  | nil => exact ht
  | cons s steps ih =>
      rw [runSteps]
      split
      · exact ih (List.mem_append_left _ ht)
      · exact ht

/-- A run that comes to well-formed tensors only returns when each of its steps does. -/
theorem returns_runSteps {steps : List Step} (horders : ∀ s ∈ steps, s.payload.OrdersAxes)
    (hcrops : ∀ s ∈ steps, s.payload.cropFits = true) {erf : ErrorFunction} {inputs : NameMap Tensor}
    {values : List Tensor} (hrun : ∀ t ∈ (runSteps erf inputs steps values).1, t.WellFormed) :
    Returns (runSteps erf inputs steps values).2 := by
  induction steps generalizing values with
  | nil => exact returns_ok ()
  | cons s steps ih =>
      obtain ⟨horder, horders⟩ := List.forall_mem_cons.1 horders
      obtain ⟨hcrop, hcrops⟩ := List.forall_mem_cons.1 hcrops
      have hvalue := Step.returns_value horder hcrop erf inputs fun t ht => hrun t (mem_runSteps ht)
      rw [runSteps] at hrun ⊢
      split
      · next value heq =>
        rw [heq] at hrun
        exact ih horders hcrops hrun
      · next fault hfault =>
        rw [hfault] at hvalue
        exact hvalue.error

/-- Outputs are taken out of slots that there are. -/
theorem returns_takeOutputs {slots : List Nat} (h : ∀ slot ∈ slots, slot < program.steps.length)
    (left : List (Option Tensor)) (results : NameMap Tensor) :
    Returns (program.takeOutputs slots left results) := by
  induction slots generalizing left results with
  | nil => exact returns_ok results
  | cons slot slots ih =>
      obtain ⟨hslot, hslots⟩ := List.forall_mem_cons.1 h
      rw [takeOutputs]
      refine (returns_ofOption ⟨_, List.getElem?_eq_getElem hslot⟩).bind fun s _ => ?_
      split
      · exact ih hslots _ _
      · exact returns_fail _

/-- The sizes of every tensor that a run comes to, its inputs and constants among them, stand for a
number of elements that a word holds. -/
def SizesFit (program : Program) (erf : ErrorFunction) (inputs : NameMap Tensor) : Prop :=
  ∀ t ∈ (runSteps erf inputs program.steps []).1, volume t.sizes < UInt64.size

instance (program : Program) (erf : ErrorFunction) (inputs : NameMap Tensor) :
    Decidable (program.SizesFit erf inputs) :=
  inferInstanceAs (Decidable (∀ t ∈ (runSteps erf inputs program.steps []).1, _))

/-- A run that comes to well-formed tensors only returns. -/
theorem returns_execute (horders : ∀ s ∈ program.steps, s.payload.OrdersAxes)
    (hcrops : ∀ s ∈ program.steps, s.payload.cropFits = true)
    (houtputs : ∀ slot ∈ program.outputs, slot < program.steps.length) {erf : ErrorFunction}
    {inputs : NameMap Tensor} (hfit : program.SizesFit erf inputs) :
    Returns (program.execute erf inputs) := by
  have hrun := returns_runSteps horders hcrops fun t ht => Tensor.wellFormed_iff.2 (hfit t ht)
  rw [execute]
  rcases hvalues : runSteps erf inputs program.steps [] with ⟨values, fault | ⟨⟩⟩
  · rw [hvalues] at hrun
    exact hrun.error
  · exact returns_takeOutputs houtputs _ _

/-- The steps of a program read earlier slots, and do what primitives of the topology do. -/
theorem slots_lt_of_compile {t : Topology} (h : compile t = .ok program) {i : Nat} {s : Step}
    (hs : program.steps[i]? = some s) :
    (∀ slot ∈ s.inputs, slot < i) ∧ ∃ p ∈ t.primitives, s.payload = p.payload := by
  obtain ⟨order, hschedule, hsteps, -, -⟩ := compile_eq_ok_iff.1 h
  obtain ⟨hlength, hall⟩ := represents_of_stepsOf hsteps
  have hlt : i < order.length := hlength ▸ (List.getElem?_eq_some_iff.1 hs).1
  obtain ⟨s', hs', hrepresents⟩ := hall i order[i] (List.getElem?_eq_getElem hlt)
  obtain rfl := Option.some.inj (hs.symm.trans hs')
  refine ⟨?_, order[i], (Topology.schedule_perm hschedule).mem_iff.1 (List.getElem_mem hlt),
    hrepresents.payload_eq⟩
  intro slot hslot
  obtain ⟨k, hk⟩ := List.mem_iff_getElem?.1 hslot
  obtain ⟨source, -, -, hread⟩ := exists_left_of_forall₂ hrepresents.inputs hk
  obtain ⟨before, hbefore, -⟩ := Option.map_eq_some_iff.1 hread
  have hslot_lt := (List.getElem?_eq_some_iff.1 hbefore).1
  rw [List.length_take] at hslot_lt
  exact Nat.lt_of_lt_of_le hslot_lt (Nat.min_le_left _ _)

theorem outputs_lt_of_compile {t : Topology} (h : compile t = .ok program) :
    ∀ slot ∈ program.outputs, slot < program.steps.length := by
  obtain ⟨-, -, -, -, houtputs⟩ := compile_eq_ok_iff.1 h
  intro slot hslot
  rw [houtputs, outputsOf] at hslot
  exact List.mem_range.1 (List.mem_of_mem_filter hslot)

end Program

/-- The programs of lowered graphs return, as long as words hold the ends of the ranges that are
cropped. Every step reads earlier slots. On well-formed arguments it gives an error or a tensor, and
this tensor is well formed again when its sizes stand for a number of elements that a word holds. A run
where all sizes do ends with outputs or with an error. -/
theorem Lowerer.execute_returns {l : Lowerer} {g : Graph} {options : BuildOptions}
    {lowered : Lowered} {program : Program} (hregistry : l.registry = .standard)
    (h : l.lower g options = .ok lowered) (hcompile : Program.compile lowered.topology = .ok program)
    (hcrops : ∀ s ∈ program.steps, s.payload.cropFits = true) :
    (∀ (i : Nat) (s : Step), program.steps[i]? = some s → (∀ slot ∈ s.inputs, slot < i) ∧
      ∀ erf (args : List Tensor), (∀ t ∈ args, t.WellFormed) →
        (∃ t : Tensor, s.compute erf args = .ok t ∧
          (volume t.sizes < UInt64.size → t.WellFormed)) ∨
        ∃ cause, s.compute erf args = .error (.error cause)) ∧
      ∀ erf inputs, program.SizesFit erf inputs → (∃ out, program.execute erf inputs = .ok out) ∨
        ∃ cause, program.execute erf inputs = .error (.error cause) := by
  have horders : ∀ s ∈ program.steps, s.payload.OrdersAxes := by
    intro s hs
    obtain ⟨i, hi⟩ := List.mem_iff_getElem?.1 hs
    obtain ⟨-, p, hp, hpayload⟩ := Program.slots_lt_of_compile hcompile hi
    exact hpayload ▸ ordersAxes_of_lower hregistry h p hp
  constructor
  · intro i s hs
    have hmem := List.mem_of_getElem? hs
    refine ⟨(Program.slots_lt_of_compile hcompile hs).1, fun erf args hargs => ?_⟩
    rcases returns_iff.1 (Step.returns_compute (horders s hmem) (hcrops s hmem) erf hargs) with
      ⟨t, ht⟩ | hcause
    · exact .inl ⟨t, ht, Tensor.wellFormed_iff.2⟩
    · exact .inr hcause
  · intro erf inputs hfit
    exact returns_iff.1 (Program.returns_execute horders hcrops
      (Program.outputs_lt_of_compile hcompile) hfit)

/-- The program of a row and its transpose permutes axes, and returns for two numbers. -/
theorem Lowerer.execute_returns_beside : ∃ lowered program,
    plain.lower (.beside "r") {} = .ok lowered ∧ Program.compile lowered.topology = .ok program ∧
      (∃ s ∈ program.steps, s.payload = .permute [1, 0]) ∧
      (∀ s ∈ program.steps, s.payload.cropFits = true) ∧ program.SizesFit id Graph.besideInputs ∧
      ((∃ out, program.execute id Graph.besideInputs = .ok out) ∨
        ∃ cause, program.execute id Graph.besideInputs = .error (.error cause)) := by
  have htest : ((plain.lower (.beside "r") {}).toOption.any fun lowered =>
      (Program.compile lowered.topology).toOption.any fun program =>
        decide ((∃ s ∈ program.steps, s.payload = .permute [1, 0]) ∧
          (∀ s ∈ program.steps, s.payload.cropFits = true) ∧
          program.SizesFit id Graph.besideInputs)) = true := by
    decide +kernel
  obtain ⟨lowered, h, htest⟩ := exists_of_any_toOption htest
  obtain ⟨program, hcompile, htest⟩ := exists_of_any_toOption htest
  obtain ⟨hpermutes, hcrops, hfit⟩ := of_decide_eq_true htest
  obtain ⟨-, hreturns⟩ := execute_returns rfl h hcompile hcrops
  exact ⟨lowered, program, h, hcompile, hpermutes, hcrops, hfit, hreturns _ _ hfit⟩

end TensorLowering
