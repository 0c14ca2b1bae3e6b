import TensorLowering.Proofs.Lowering.Naming
import TensorLowering.Proofs.Program.Outputs

/-!
# The outputs of lowered graphs

The program of a lowered graph hands out its results under their names and what is left over under
its identifier. Both kinds of names share one map. A name is only lost there when a result has the
identifier of a primitive that is left over for its name.

## Implementation notes

A program with a kernel is never compiled, so the overlay of a lowerer plays no part in the programs
that run (`Lowerer.lower_withoutOverlay`).

## Main statements

* `Lowerer.handedOut_iff`: what is handed out are the results and what is left over.
* `Lowerer.outputs_of_execute`: what a run hands out, and when no output is lost.
-/

namespace TensorLowering

/-- A topology with a kernel is not compiled. -/
theorem Program.payload_ne_customKernel {t : Topology} {program : Program}
    (h : compile t = .ok program) {p : Primitive} (hp : p ∈ t.primitives) (spec : KernelSpec) :
    p.payload ≠ .customKernel spec := by
  intro hpayload
  obtain ⟨order, hschedule, hsteps, -, -⟩ := compile_eq_ok_iff.1 h
  obtain ⟨i, hi⟩ := List.mem_iff_getElem?.1 ((Topology.schedule_perm hschedule).mem_iff.2 hp)
  obtain ⟨s, -, hs⟩ := (represents_of_stepsOf hsteps).2 i p hi
  have hconstant := hs.constant
  rw [Step.constantOf, hpayload] at hconstant
  cases hconstant

/-- The primitives that are left over: they stand for no result, hold no constant, and are read by
none. -/
def Graph.LeavesOver (g : Graph) (ps : List Primitive) (p : Primitive) : Prop :=
  (∀ n ∈ g.nodes, n.isA Opset.result = true → n.identity ≠ .ok p.id) ∧
    (∀ user ∈ ps, ∀ source ∈ user.inputs, source.id ≠ p.id) ∧ p.payload.isData = false

namespace Lowerer

open Build

variable {l : Lowerer} {g : Graph} {options : BuildOptions} {lowered : Lowered}

/-- The lowerer that has forgotten its overlay. -/
def withoutOverlay (l : Lowerer) : Lowerer := { l with overlay := .empty }

/-- A node that does not become a kernel becomes the same without the overlay. -/
theorem Lowers.withoutOverlay {ctx : BuildContext} {n : Node} {s s' : BuildState}
    {ps : List Primitive} (h : l.Lowers ctx n s ps s')
    (hplain : ∀ p ∈ ps, ∀ spec, p.payload ≠ .customKernel spec) :
    l.withoutOverlay.Lowers ctx n s ps s' := by
  obtain @⟨label, identity, r, sources, hlabel, hidentity, hruled, hsources, hemits, hadds⟩ := h
  refine ⟨hlabel, hidentity, ?_, hsources, hemits, hadds⟩
  obtain ⟨kind, hkind, -⟩ := Node.label_eq_ok_iff.1 hlabel
  cases hoverlay : l.overlay.get? kind.name with
  | none =>
      rw [ruleName?, hkind, Option.bind_eq_bind, Option.bind_some, hoverlay] at hruled
      rw [ruleName?_of_empty rfl hkind]
      exact hruled
  | some k =>
      rw [ruleName?, hkind, Option.bind_eq_bind, Option.bind_some, hoverlay] at hruled
      obtain rfl := Option.some.inj hruled
      cases hemits with
      | one becomes =>
          cases becomes with
          | kernel => exact absurd rfl (hplain _ (List.mem_singleton_self _) _)

/-- A graph without kernels is lowered to the same without the overlay. -/
theorem lower_withoutOverlay (hregistry : l.registry = .standard)
    (h : l.lower g options = .ok lowered)
    (hplain : ∀ p ∈ lowered.topology.primitives, ∀ spec, p.payload ≠ .customKernel spec) :
    l.withoutOverlay.lower g options = .ok lowered := by
  obtain ⟨hvalid, rfl⟩ := lowered_eq h
  have hends : ∀ i ≤ g.size, Ends ((g.nodes.take i).forM
      (l.withoutOverlay.lowerNode (l.context g options))) .empty ()
      (l.stateBefore g options i) := by
    intro i hi
    induction i with
    | zero =>
        rw [List.take_zero, stateBefore_zero]
        exact ends_pure_iff.2 ⟨rfl, rfl⟩
    | succ i ih =>
        have hn : g.nodes[i]? = some g.nodes[i] := List.getElem?_eq_getElem hi
        obtain ⟨ps, hps⟩ := lowers_of_lower h hregistry hn
        have hnode : l.withoutOverlay.Lowers (l.context g options) g.nodes[i]
            (l.stateBefore g options i) ps (l.stateBefore g options (i + 1)) := by
          apply hps.withoutOverlay
          obtain @⟨label, identity, -, -, -, -, -, -, -, hadds⟩ := hps
          intro p hp spec
          have hemitted : p.labelled label identity ∈ l.emitted g options i := by
            rw [emitted, hadds.primitives_eq, Topology.size, List.drop_left]
            exact List.mem_map_of_mem hp
          exact hplain _ (emitted_subset h hregistry hi (Nat.le_refl _) hemitted) spec
        have hnext := (ends_lowerNode_iff (l := l.withoutOverlay) hregistry).2 ⟨ps, hnode⟩
        exact (ends_forM_take_succ_iff hn).2 ⟨_, ih (Nat.le_of_succ_le hi), hnext⟩
  have hall := hends g.size (Nat.le_refl _)
  rw [Graph.size, List.take_length] at hall
  exact lower_eq_ok_iff.2 ⟨_, hall, hvalid, rfl⟩

section

variable (h : l.lower g options = .ok lowered) (hregistry : l.registry = .standard)
  (hoverlay : l.overlay = .empty) (hopset : g.InOpset)
include h hregistry hoverlay hopset

/-- A result becomes one primitive, which has its identity, is marked, and has its name among the
outputs. -/
theorem emitted_of_isResult {i : Nat} {n : Node} (hn : g.nodes[i]? = some n)
    (hresult : n.isA Opset.result = true) :
    ∃ p, l.emitted g options i = [p] ∧ n.identity = .ok p.id ∧ p.detached.isResult = true ∧
      p.outputName = n.name := by
  have hnopset := hopset n (List.mem_of_getElem? hn)
  have hsplit : n.isSplit = false := hnopset.isSplit_of_isA (by decide) hresult
  obtain ⟨-, hidentity, -, -, -, -, -, -⟩ := loweredAt_of_lower h hregistry hn
  obtain ⟨p, hp, hmarked, hname⟩ :=
    exists_emitted_result h hregistry hoverlay hn hnopset hidentity hresult
  obtain ⟨q, hq, hid⟩ := exists_emitted_identity h hregistry hoverlay hn hnopset hidentity hsplit
  obtain rfl := List.mem_singleton.1 (hp ▸ hq)
  exact ⟨q, hp, hid ▸ hidentity, hmarked, hname⟩

theorem exists_result {n : Node} (hn : n ∈ g.nodes) (hresult : n.isA Opset.result = true) :
    ∃ p ∈ lowered.topology.primitives, n.identity = .ok p.id ∧ p.detached.isResult = true ∧
      p.outputName = n.name := by
  obtain ⟨i, hi⟩ := List.mem_iff_getElem?.1 hn
  have hlt := (List.getElem?_eq_some_iff.1 hi).1
  obtain ⟨p, hp, hresult⟩ := emitted_of_isResult h hregistry hoverlay hopset hi hresult
  refine ⟨p, ?_, hresult⟩
  rw [(lowered_eq h).2]
  exact emitted_subset h hregistry hlt (Nat.le_refl _) (hp ▸ List.mem_singleton_self p)

/-- Only the primitives of results are marked. -/
theorem isResult_iff {p : Primitive} (hp : p ∈ lowered.topology.primitives) :
    p.detached.isResult = true ↔
      ∃ n ∈ g.nodes, n.isA Opset.result = true ∧ n.identity = .ok p.id := by
  constructor
  · intro hmarked
    rw [(lowered_eq h).2] at hp
    obtain ⟨i, hi, hemitted⟩ := exists_emitted h hregistry (Nat.le_refl _) hp
    have hn : g.nodes[i]? = some g.nodes[i] := List.getElem?_eq_getElem hi
    have hnmem := List.mem_of_getElem? hn
    have hresult : g.nodes[i].isA Opset.result = true := by
      obtain @⟨label, identity, r, sources, ps, hlabel, -, -, -, -, hemits_eq, -, -⟩ :=
        loweredAt_of_lower h hregistry hn
      obtain ⟨kind, hkind, rfl⟩ := Node.label_eq_ok_iff.1 hlabel
      obtain ⟨p', -, rfl⟩ := List.mem_map.1 (hemits_eq ▸ hemitted)
      exact (hopset _ hnmem).isA_result_of_name hkind (Primitive.kindName_eq_of_isResult hmarked)
    obtain ⟨q, hq, hidentity, -⟩ := emitted_of_isResult h hregistry hoverlay hopset hn hresult
    obtain rfl := List.mem_singleton.1 (hq ▸ hemitted)
    exact ⟨_, hnmem, hresult, hidentity⟩
  · rintro ⟨n, hn, hresult, hidentity⟩
    obtain ⟨q, hq, hqidentity, hmarked, -⟩ :=
      exists_result h hregistry hoverlay hopset hn hresult
    have hid : p.id = q.id := Except.ok.inj (hidentity.symm.trans hqidentity)
    rw [Topology.eq_of_id_eq hp hq hid]
    exact hmarked

/-- What is handed out are the results and what is left over. -/
theorem handedOut_iff {p : Primitive} (hp : p ∈ lowered.topology.primitives) :
    p.HandedOut lowered.topology.primitives ↔
      (∃ n ∈ g.nodes, n.isA Opset.result = true ∧ n.identity = .ok p.id) ∨
        g.LeavesOver lowered.topology.primitives p := by
  rw [Primitive.HandedOut, isResult_iff h hregistry hoverlay hopset hp, Graph.LeavesOver]
  constructor
  · rintro (hresult | hunread)
    · exact .inl hresult
    · by_cases hresult : ∃ n ∈ g.nodes, n.isA Opset.result = true ∧ n.identity = .ok p.id
      · exact .inl hresult
      · exact .inr ⟨fun n hn hr hidentity => hresult ⟨n, hn, hr, hidentity⟩, hunread⟩
  · rintro (hresult | ⟨-, hunread⟩)
    · exact .inl hresult
    · exact .inr hunread

/-- What is left over is handed out under its identifier. -/
theorem outputName_of_leavesOver {p : Primitive} (hp : p ∈ lowered.topology.primitives)
    (hleft : g.LeavesOver lowered.topology.primitives p) : p.outputName = p.id := by
  have hunmarked : p.detached.isResult = false := by
    rw [Bool.eq_false_iff, ne_eq, isResult_iff h hregistry hoverlay hopset hp]
    rintro ⟨n, hn, hresult, hidentity⟩
    exact hleft.1 n hn hresult hidentity
  rw [Primitive.outputName, Step.outputName, hunmarked]
  rfl

/-- The primitive of a result is handed out under the name of the result. -/
theorem outputName_of_identity {p : Primitive} (hp : p ∈ lowered.topology.primitives) {n : Node}
    (hn : n ∈ g.nodes) (hresult : n.isA Opset.result = true) (hidentity : n.identity = .ok p.id) :
    p.outputName = n.name := by
  obtain ⟨q, hq, hqidentity, -, hname⟩ := exists_result h hregistry hoverlay hopset hn hresult
  have hid : p.id = q.id := Except.ok.inj (hidentity.symm.trans hqidentity)
  rw [Topology.eq_of_id_eq hp hq hid, hname]

/-- A result is the only output of its name, unless something left over has the name for an
identifier. -/
theorem eq_of_outputName_eq_result {p : Primitive} (hp : p ∈ lowered.topology.primitives)
    {n : Node} (hn : n ∈ g.nodes) (hresult : n.isA Opset.result = true)
    (hidentity : n.identity = .ok p.id)
    (hapart : ∀ q ∈ lowered.topology.primitives, g.LeavesOver lowered.topology.primitives q →
      q.id ≠ n.name) {q : Primitive} (hq : q ∈ lowered.topology.primitives)
    (hout : q.HandedOut lowered.topology.primitives) (hsame : q.outputName = p.outputName) :
    q = p := by
  rw [outputName_of_identity h hregistry hoverlay hopset hp hn hresult hidentity] at hsame
  rcases (handedOut_iff h hregistry hoverlay hopset hq).1 hout with
    ⟨m, hm, hmresult, hmidentity⟩ | hleft
  · -- two results of one name are one node, which has one identity
    rw [outputName_of_identity h hregistry hoverlay hopset hq hm hmresult hmidentity] at hsame
    obtain ⟨i, hi⟩ := List.mem_iff_getElem?.1 hn
    obtain ⟨j, hj⟩ := List.mem_iff_getElem?.1 hm
    obtain rfl := eq_of_result_name_eq h hregistry hoverlay hopset hj hi hmresult hresult hsame
    obtain rfl := Option.some.inj (hi.symm.trans hj)
    exact Topology.eq_of_id_eq hq hp (Except.ok.inj (hmidentity.symm.trans hidentity))
  · rw [outputName_of_leavesOver h hregistry hoverlay hopset hq hleft] at hsame
    exact absurd hsame (hapart q hq hleft)

/-- What is left over is the only output of its identifier, unless a result has it for a name. -/
theorem eq_of_outputName_eq_leftOver {p : Primitive} (hp : p ∈ lowered.topology.primitives)
    (hleft : g.LeavesOver lowered.topology.primitives p)
    (hapart : ∀ n ∈ g.nodes, n.isA Opset.result = true → n.name ≠ p.id) {q : Primitive}
    (hq : q ∈ lowered.topology.primitives) (hout : q.HandedOut lowered.topology.primitives)
    (hsame : q.outputName = p.outputName) : q = p := by
  rw [outputName_of_leavesOver h hregistry hoverlay hopset hp hleft] at hsame
  rcases (handedOut_iff h hregistry hoverlay hopset hq).1 hout with
    ⟨m, hm, hmresult, hmidentity⟩ | hqleft
  · rw [outputName_of_identity h hregistry hoverlay hopset hq hm hmresult hmidentity] at hsame
    exact absurd hsame (hapart m hm hmresult)
  · rw [outputName_of_leavesOver h hregistry hoverlay hopset hq hqleft] at hsame
    exact Topology.eq_of_id_eq hq hp hsame

end

/-- What a run of a lowered graph hands out. A result has its value under its name, unless something
left over has the name for an identifier; what is left over has its value under its identifier,
unless a result has the identifier for a name; and no output is lost exactly when there is no such
pair. -/
theorem outputs_of_execute {program : Program} {erf : ErrorFunction} {inputs out : NameMap Tensor}
    (hregistry : l.registry = .standard) (hopset : g.InOpset)
    (h : l.lower g options = .ok lowered)
    (hcompile : Program.compile lowered.topology = .ok program)
    (hrun : program.execute erf inputs = .ok out) :
    (∀ n ∈ g.nodes, n.isA Opset.result = true →
      (∀ q ∈ lowered.topology.primitives, g.LeavesOver lowered.topology.primitives q →
        q.id ≠ n.name) →
      ∃ p ∈ lowered.topology.primitives, n.identity = .ok p.id ∧
        ∃ value, program.valueOf? erf inputs p.id = some value ∧ out.get? n.name = some value) ∧
    (∀ p ∈ lowered.topology.primitives, g.LeavesOver lowered.topology.primitives p →
      (∀ n ∈ g.nodes, n.isA Opset.result = true → n.name ≠ p.id) →
      ∃ value, program.valueOf? erf inputs p.id = some value ∧ out.get? p.id = some value) ∧
    (out.size = program.outputs.length ↔
      ∀ n ∈ g.nodes, n.isA Opset.result = true → ∀ q ∈ lowered.topology.primitives,
        g.LeavesOver lowered.topology.primitives q → q.id ≠ n.name) := by
  replace h := lower_withoutOverlay hregistry h fun p hp spec =>
    Program.payload_ne_customKernel hcompile hp spec
  refine ⟨?_, ?_, ?_⟩
  · intro n hn hresult hapart
    obtain ⟨p, hp, hidentity, -, hname⟩ := exists_result h hregistry rfl hopset hn hresult
    refine ⟨p, hp, hidentity, ?_⟩
    rw [← hname]
    apply Program.get?_execute hcompile hrun hp
    · exact (handedOut_iff h hregistry rfl hopset hp).2 (.inl ⟨n, hn, hresult, hidentity⟩)
    · intro q hq hout
      exact eq_of_outputName_eq_result h hregistry rfl hopset hp hn hresult hidentity hapart hq hout
  · intro p hp hleft hapart
    have hout := (handedOut_iff h hregistry rfl hopset hp).2 (.inr hleft)
    have hkept := Program.get?_execute hcompile hrun hp hout fun q hq hqout =>
      eq_of_outputName_eq_leftOver h hregistry rfl hopset hp hleft hapart hq hqout
    rwa [outputName_of_leavesOver h hregistry rfl hopset hp hleft] at hkept
  · rw [Program.size_execute_eq_iff hcompile hrun]
    constructor
    · intro hinjective n hn hresult q hq hleft hid
      obtain ⟨p, hp, hidentity, -, hname⟩ := exists_result h hregistry rfl hopset hn hresult
      have hpout := (handedOut_iff h hregistry rfl hopset hp).2 (.inl ⟨n, hn, hresult, hidentity⟩)
      have hqout := (handedOut_iff h hregistry rfl hopset hq).2 (.inr hleft)
      have hqname := outputName_of_leavesOver h hregistry rfl hopset hq hleft
      obtain rfl := hinjective p hp hpout q hq hqout (by rw [hname, hqname, hid])
      exact hleft.1 n hn hresult hidentity
    · intro hapart p hp hpout q hq hqout hsame
      rcases (handedOut_iff h hregistry rfl hopset hq).1 hqout with
        ⟨n, hn, hresult, hidentity⟩ | hleft
      · exact eq_of_outputName_eq_result h hregistry rfl hopset hq hn hresult hidentity
          (hapart n hn hresult) hp hpout hsame
      · refine eq_of_outputName_eq_leftOver h hregistry rfl hopset hq hleft ?_ hp hpout hsame
        intro n hn hresult hname
        exact hapart n hn hresult q hq hleft hname.symm

end Lowerer

namespace Graph

/-- A row, a result of it with the given name, and its transpose, which nothing reads. -/
def besideRequests (name : String) : List (String × NodeRequest) :=
  [("x", .parameter (.ofSizes .f32 [1, 2])), (name, .result ⟨0, 0⟩),
    ("a", .operation (.single Opset.transpose) [⟨0, 0⟩] [.ofSizes .f32 [2, 1]] .empty)]

/-- The graph of the row. -/
def beside (name : String) : Graph :=
  ⟨[⟨0, .single Opset.parameter, "x", [], [], [.ofSizes .f32 [1, 2]], .empty, none⟩,
    ⟨1, .single Opset.result, name, [⟨0, 0⟩], [.ofSizes .f32 [1, 2]], [.ofSizes .f32 [1, 2]],
      .empty, none⟩,
    ⟨2, .single Opset.transpose, "a", [⟨0, 0⟩], [.ofSizes .f32 [1, 2]], [.ofSizes .f32 [2, 1]],
      .empty, none⟩]⟩

theorem ofRequests_besideRequests (name : String) :
    ofRequests (besideRequests name) = .ok (beside name) := rfl

theorem inOpset_beside (name : String) : (beside name).InOpset := by
  have htypes : ∀ type ∈ [Opset.parameter, Opset.result, Opset.transpose].map OpType.single,
      type ∈ Opset.types := by decide
  exact Graph.inOpset_iff.2 fun n hn => htypes n.type (List.mem_map_of_mem (f := Node.type) hn)

/-- A row for the graph. -/
def besideInputs : NameMap Tensor :=
  NameMap.empty.insert "x" ⟨[1, 2], .f32 ([1, 2].map .ofInt).toArray, by decide +kernel⟩

end Graph

namespace Lowerer

/-- A run of the graph of the row, when it passes a test. -/
theorem exists_execute_beside (name : String) (test : Lowered → Program → NameMap Tensor → Bool)
    (h : ((plain.lower (.beside name) {}).toOption.any fun lowered =>
      (Program.compile lowered.topology).toOption.any fun program =>
        (program.execute id Graph.besideInputs).toOption.any (test lowered program)) = true) :
    ∃ lowered program out, plain.lower (.beside name) {} = .ok lowered ∧
      Program.compile lowered.topology = .ok program ∧
      program.execute id Graph.besideInputs = .ok out ∧ test lowered program out = true := by
  obtain ⟨lowered, hlowered, h⟩ := Outcome.exists_of_any_toOption h
  obtain ⟨program, hprogram, h⟩ := Outcome.exists_of_any_toOption h
  obtain ⟨out, hout, h⟩ := Outcome.exists_of_any_toOption h
  exact ⟨lowered, program, out, hlowered, hprogram, hout, h⟩

/-- The result of the row and its transpose are handed out side by side. -/
theorem size_execute_beside : ∃ lowered program out, plain.lower (.beside "r") {} = .ok lowered ∧
    Program.compile lowered.topology = .ok program ∧
    program.execute id Graph.besideInputs = .ok out ∧ program.outputs.length = 2 ∧ out.size = 2 := by
  obtain ⟨lowered, program, out, h, hcompile, hrun, htest⟩ := exists_execute_beside "r"
    (fun lowered program _ => decide ("r" ∉ lowered.topology.ids ∧ program.outputs.length = 2))
    (by decide +kernel)
  obtain ⟨hfresh, htwo⟩ := of_decide_eq_true htest
  have hnames : ∀ n ∈ (Graph.beside "r").nodes, n.isA Opset.result = true → n.name = "r" := by
    decide +kernel
  obtain ⟨-, -, hsize⟩ := outputs_of_execute rfl (Graph.inOpset_beside "r") h hcompile hrun
  refine ⟨lowered, program, out, h, hcompile, hrun, htwo, htwo ▸ hsize.2 ?_⟩
  intro n hn hresult q hq _ hid
  exact hfresh (hnames n hn hresult ▸ hid ▸ List.mem_map_of_mem hq)

/-- An output may be lost although the identities of all nodes differ: a result that is named after
the transpose has the value of the transpose. -/
theorem size_execute_beside_ne : Graph.ofRequests (Graph.besideRequests "transpose:a") =
      .ok (.beside "transpose:a") ∧
    (Graph.beside "transpose:a").InOpset ∧
    ((Graph.beside "transpose:a").nodes.map Node.identity?).Nodup ∧
    ∃ lowered program out, plain.lower (.beside "transpose:a") {} = .ok lowered ∧
      Program.compile lowered.topology = .ok program ∧
      program.execute id Graph.besideInputs = .ok out ∧ out.size ≠ program.outputs.length ∧
      out.get? "transpose:a" ≠ program.valueOf? id Graph.besideInputs "result:transpose:a" := by
  refine ⟨Graph.ofRequests_besideRequests _, Graph.inOpset_beside _, by decide +kernel, ?_⟩
  obtain ⟨lowered, program, out, h, hcompile, hrun, htest⟩ :=
    exists_execute_beside "transpose:a"
      (fun _ program out => decide (out.size ≠ program.outputs.length ∧
        out.get? "transpose:a" ≠ program.valueOf? id Graph.besideInputs "result:transpose:a"))
      (by decide +kernel)
  obtain ⟨hsize, hvalue⟩ := of_decide_eq_true htest
  exact ⟨lowered, program, out, h, hcompile, hrun, hsize, hvalue⟩

end Lowerer

end TensorLowering
