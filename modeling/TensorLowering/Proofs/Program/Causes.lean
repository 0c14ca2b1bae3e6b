import TensorLowering.Proofs.Program.Safety
import TensorLowering.Proofs.Tensor.Causes
import TensorLowering.Proofs.Topology.Queue

/-!
# Why programs fail

Compiling and running never fail because of the order of the steps: a producer always has its slot
before it is read, a slot that is read is full, and every output is there when it is taken out. The
branches that would report the contrary are there for schedules that do not exist.

## Main statements

* `Program.faultsIn_compile`, `Program.faultsIn_execute`: no fault denies the order of the steps.
* `Program.runs_in_order`: the branches by name.
-/

namespace TensorLowering

open Outcome
open Fault (Ordinary)

namespace Step

theorem faultsIn_argument (s : Step) (args : List Tensor) (index : Nat) :
    FaultsIn Ordinary (s.argument args index) :=
  faultsIn_orExecution rfl _

theorem faultsIn_sizesFrom (s : Step) (t : Tensor) : FaultsIn Ordinary (s.sizesFrom t) := by
  rw [sizesFrom]
  split
  · exact faultsIn_failExecution rfl
  · exact .mapM fun value _ => .ite (fun _ => faultsIn_failExecution rfl) fun _ => faultsIn_ok _

/-- The arguments of a step do not tell it in which order it runs. -/
theorem faultsIn_compute (s : Step) (erf : ErrorFunction) (args : List Tensor) :
    FaultsIn Ordinary (s.compute erf args) := by
  have hargument : ∀ {index : Nat} {f : Tensor → Outcome EngineError Tensor},
      (∀ t, FaultsIn Ordinary (f t)) → FaultsIn Ordinary (s.argument args index >>= f) :=
    fun h => (s.faultsIn_argument _ _).bind fun t _ => h t
  rw [compute]
  split
  · exact hargument fun a => a.faultsIn_convert _
  · exact hargument fun a => hargument fun b => Tensor.faultsIn_eltwise _ a b
  · exact hargument fun a => a.faultsIn_erf erf
  · exact hargument fun a => hargument fun b => Tensor.faultsIn_gemm a b _
  · exact hargument fun a => a.faultsIn_permute _
  · exact hargument fun a => a.faultsIn_reshape _
  · exact hargument fun shape => (s.faultsIn_sizesFrom shape).bind fun sizes _ =>
      hargument fun a => a.faultsIn_reshape sizes
  · exact hargument fun a => a.faultsIn_reduce _ _ _
  · exact hargument fun a => a.faultsIn_crop _ _ _
  · exact Tensor.faultsIn_concat _ _
  · -- the scale and the zero point are arguments, or left out
    have hoptional : ∀ (given : Bool) (index : Nat)
        (f : Option Tensor → Outcome EngineError Tensor), (∀ t, FaultsIn Ordinary (f t)) →
        FaultsIn Ordinary (if given = true then some <$> s.argument args index >>= f
          else pure none >>= f) := by
      intro given index f hf
      exact .ite (fun _ => (s.faultsIn_argument _ _).map.bind fun t _ => hf t) fun _ => hf none
    exact hoptional _ _ _ fun scale => hoptional _ _ _ fun zeroPoint =>
      hargument fun a => hargument fun w => Tensor.faultsIn_fullyConnected a w scale zeroPoint
  · exact faultsIn_failExecution rfl
  · exact faultsIn_failExecution rfl
  · exact faultsIn_failExecution rfl

theorem faultsIn_bindInput (s : Step) (type : TensorType) (inputs : NameMap Tensor) :
    FaultsIn Ordinary (s.bindInput type inputs) := by
  rw [bindInput]
  split
  · exact faultsIn_failExecution rfl
  · exact .ite (fun _ => faultsIn_ok _) fun _ => faultsIn_failExecution rfl

/-- A step whose slots are full finds none of them empty. -/
theorem faultsIn_value {s : Step} {values : List Tensor}
    (h : ∀ slot ∈ s.inputs, slot < values.length) (erf : ErrorFunction) (inputs : NameMap Tensor) :
    FaultsIn Ordinary (s.value erf inputs values) := by
  rw [value]
  split
  · exact s.faultsIn_bindInput _ _
  · exact faultsIn_ok _
  · refine FaultsIn.bind (.mapM fun slot hslot => ?_) fun args _ => s.faultsIn_compute erf args
    rw [List.getElem?_eq_getElem (h slot hslot)]
    exact faultsIn_ok _

end Step

theorem CompileFault.ordinary {ps : List Primitive} {fault : Fault EngineError}
    (h : CompileFault ps fault) : fault.Ordinary := by
  cases h with
  | kernel => trivial
  | literal _ _ rejected => exact Tensor.faultsIn_ofLiteral _ fault rejected
  | output => exact rfl

namespace Program

variable {t : Topology} {program : Program}

/-- A compilation fails because of the topology, or because of one of its primitives. -/
theorem faultsIn_compile (t : Topology) : FaultsIn Ordinary (compile t) := by
  rw [compile]
  refine FaultsIn.bind ?_ fun order horder => FaultsIn.bind ?_ fun _ _ => faultsIn_pure _
  · apply faultsIn_mapError
    · exact fun _ => rfl
    · trivial
  · rw [mapError_eq_ok_iff] at horder
    intro fault hfault
    exact (compileFault_of_stepsOf (Topology.schedule_inOrder horder) hfault).ordinary

/-- Every step of a run reads full slots when each reads the slots of the steps before it. -/
theorem faultsIn_runSteps {steps : List Step} {values : List Tensor}
    (h : ∀ (i : Nat) (s : Step), steps[i]? = some s →
      ∀ slot ∈ s.inputs, slot < values.length + i) (erf : ErrorFunction) (inputs : NameMap Tensor) :
    FaultsIn Ordinary (runSteps erf inputs steps values).2 := by
  induction steps generalizing values with
  | nil => exact faultsIn_ok ()
  | cons s rest ih =>
      have hvalue := Step.faultsIn_value (h 0 s rfl) erf inputs
      rw [runSteps]
      split
      · next value _ =>
        apply ih
        intro i s' hs' slot hslot
        have hlt := h (i + 1) s' hs' slot hslot
        rw [List.length_append, List.length_singleton]
        omega
      · next fault hfault =>
        exact faultsIn_fault (hvalue fault hfault)

theorem faultsIn_execute (h : compile t = .ok program) (erf : ErrorFunction) (inputs : NameMap Tensor) :
    FaultsIn Ordinary (program.execute erf inputs) := by
  have hrun : FaultsIn Ordinary (runSteps erf inputs program.steps []).2 := by
    apply faultsIn_runSteps
    intro i s hs slot hslot
    simpa using (slots_lt_of_compile h hs).1 slot hslot
  rw [execute]
  rcases hvalues : runSteps erf inputs program.steps [] with ⟨values, fault | ⟨⟩⟩
  · rw [hvalues] at hrun
    exact faultsIn_fault (hrun fault rfl)
  · -- every slot is full after the run, and is listed once
    have hlength := length_of_runSteps hvalues
    have hfull : ∀ slot ∈ program.outputs, ∃ s t, program.steps[slot]? = some s ∧
        (values.map some)[slot]? = some (some t) := by
      intro slot hslot
      have hlt := outputs_lt_of_compile h slot hslot
      have hlt' : slot < values.length := by simpa [hlength] using hlt
      exact ⟨_, values[slot], List.getElem?_eq_getElem hlt, by simp [hlt']⟩
    obtain ⟨-, -, -, -, houtputs⟩ := compile_eq_ok_iff.1 h
    obtain ⟨out, hout, -⟩ := exists_takeOutputs (houtputs ▸ nodup_outputsOf _) .empty hfull
    rw [finish, hout]
    exact faultsIn_ok out

/-- Programs run in order. No primitive is scheduled before what it reads, every slot that a step
reads comes before its own, and a run neither reads an empty slot nor lacks an output, whether it is
profiled or not. -/
theorem runs_in_order (t : Topology) :
    (∀ id producer, compile t ≠ failExecution (.scheduledBefore id producer)) ∧
      ∀ program, compile t = .ok program →
        (∀ (i : Nat) (s : Step), program.steps[i]? = some s → ∀ slot ∈ s.inputs, slot < i) ∧
          ∀ erf inputs out, (out = program.execute erf inputs ∨
              ∃ elapsed profile, out = (program.executeProfiled erf inputs elapsed profile).2) →
            ∀ id, out ≠ failExecution (.emptySlot id) ∧
              out ≠ failExecution (.producedNothing id) := by
  refine ⟨?_, ?_⟩
  · intro id producer h
    exact absurd (faultsIn_compile t _ h) Bool.noConfusion
  · intro program hcompile
    refine ⟨fun i s hs => (slots_lt_of_compile hcompile hs).1, ?_⟩
    intro erf inputs out hout id
    have hexecute : out = program.execute erf inputs := by
      rcases hout with rfl | ⟨elapsed, profile, rfl⟩ <;> rfl
    have hfaults := faultsIn_execute hcompile erf inputs
    rw [← hexecute] at hfaults
    constructor
    · intro h
      exact absurd (hfaults _ h) Bool.noConfusion
    · intro h
      exact absurd (hfaults _ h) Bool.noConfusion

/-- The program of two parameters and a primitive that reads one of them runs in order. -/
theorem runs_in_order_overtaken : ∃ program, compile .overtaken = .ok program ∧
    (∃ s ∈ program.steps, s.inputs = [0]) ∧
    ∀ erf inputs id, program.execute erf inputs ≠ failExecution (.emptySlot id) := by
  have htest : ((compile .overtaken).toOption.any fun program =>
      decide (∃ s ∈ program.steps, s.inputs = [0])) = true := by
    decide +kernel
  obtain ⟨program, hcompile, htest⟩ := exists_of_any_toOption htest
  refine ⟨program, hcompile, of_decide_eq_true htest, ?_⟩
  intro erf inputs id
  exact (((runs_in_order .overtaken).2 program hcompile).2 erf inputs _ (.inl rfl) id).1

end Program

end TensorLowering
