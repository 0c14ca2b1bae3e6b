import TensorLowering.Proofs.Evaluation
import TensorLowering.Proofs.Graph.ConstantPath
import TensorLowering.Proofs.Lowering.Routing

/-!
# Constant values

Only parameters look at the inputs of an evaluation, and they have no inputs of their own. A node on a
constant path therefore has the same value in every evaluation, by induction on the path; the weights
of fully connected layers are checked to be on one.

## Main statements

* `Evaluation.values_eq_of_onConstantPath`: two evaluations agree on the nodes on constant paths.
* `Graph.constant_evaluate`: the same for the test of the lowering, and for the weights, scales and zero
  points of the layers of a graph that is lowered.
-/

namespace TensorLowering

open Evaluation

namespace Opset

theorem parameter_mem_types : .single parameter ∈ types := by decide

theorem constant_mem_types : .single constant ∈ types := by decide

theorem result_mem_types : .single result ∈ types := by decide

theorem result_ne : OpType.single result ≠ .single parameter ∧
    OpType.single result ≠ .single constant := by
  decide

theorem eq_parameter_of_name : ∀ type ∈ types, ∀ kind ∈ type.kind?, kind.name = "Parameter" →
    type = .single parameter := by
  decide

theorem ofType?_of_isA_fullyConnected : ∀ type ∈ types, type.isA fullyConnected = true →
    RuleName.ofType? type = some .fullyConnected := by
  decide

theorem ofType?_of_isA_fullyConnectedCompressed : ∀ type ∈ types,
    type.isA fullyConnectedCompressed = true →
      RuleName.ofType? type = some .fullyConnectedCompressed := by
  decide

end Opset

/-- A request that asks for parameters and constants as such: an operation is one of the operation
sets, and neither of the two. -/
def NodeRequest.AsksForSources : NodeRequest → Prop
  | .operation type _ _ _ =>
    type ∈ Opset.types ∧ type ≠ .single Opset.parameter ∧ type ≠ .single Opset.constant
  | _ => True

instance : DecidablePred NodeRequest.AsksForSources := fun request =>
  match request with
  | .operation type _ _ _ => inferInstanceAs (Decidable
      (type ∈ Opset.types ∧ type ≠ .single Opset.parameter ∧ type ≠ .single Opset.constant))
  | .parameter _ => .isTrue trivial
  | .constant _ => .isTrue trivial
  | .result _ => .isTrue trivial

namespace Graph

/-- A graph of operations of the operation sets, whose parameters and constants read nothing. -/
structure SourcesReadNothing (g : Graph) : Prop where
  opset : g.InOpset
  parameters : ∀ n ∈ g.nodes, n.type = .single Opset.parameter → n.inputs = []
  constants : ∀ n ∈ g.nodes, n.type = .single Opset.constant → n.inputs = []

theorem sourcesReadNothing_of_ofRequests {g : Graph} {requests : List (String × NodeRequest)}
    (h : ofRequests requests = .ok g) (hrequests : ∀ request ∈ requests, request.2.AsksForSources) :
    g.SourcesReadNothing := by
  have hnodes : ∀ n ∈ g.nodes, n.type ∈ Opset.types ∧
      (n.type = .single Opset.parameter ∨ n.type = .single Opset.constant → n.inputs = []) := by
    intro n hn
    obtain ⟨before, ⟨name, request⟩, hrequest, hnode⟩ := exists_request_of_mem h hn
    have hasks := hrequests _ hrequest
    cases request with
    | parameter type =>
        cases hnode
        exact ⟨Opset.parameter_mem_types, fun _ => rfl⟩
    | constant literal =>
        cases hnode
        exact ⟨Opset.constant_mem_types, fun _ => rfl⟩
    | result input =>
        obtain ⟨type, -, hnode⟩ := Outcome.bind_eq_ok_iff.1 hnode
        obtain rfl := Outcome.pure_eq_ok_iff.1 hnode
        exact ⟨Opset.result_mem_types, fun hsource => absurd hsource (not_or.2 Opset.result_ne)⟩
    | operation type inputs outputs attributes =>
        obtain ⟨types, -, hnode⟩ := Outcome.bind_eq_ok_iff.1 hnode
        obtain rfl := Outcome.pure_eq_ok_iff.1 hnode
        obtain ⟨hopset, hparameter, hconstant⟩ := hasks
        exact ⟨hopset, fun hsource => absurd hsource (not_or.2 ⟨hparameter, hconstant⟩)⟩
  refine ⟨?_, ?_, ?_⟩
  · rw [inOpset_iff]
    intro n hn
    exact (hnodes n hn).1
  · intro n hn hparameter
    exact (hnodes n hn).2 (.inl hparameter)
  · intro n hn hconstant
    exact (hnodes n hn).2 (.inr hconstant)

end Graph

namespace Evaluation

variable {erf : ErrorFunction} {inputs inputs' : NameMap Tensor} {s s' : Progress}

/-- Only parameters look at the inputs of an evaluation. -/
theorem Call.outputs_eq_of_ne_parameter {c : Call} (h : c.kind ≠ "Parameter")
    (erf : ErrorFunction) (inputs inputs' : NameMap Tensor) :
    c.outputs erf inputs = c.outputs erf inputs' := by
  simp only [outputs]
  split
  · rfl
  · rfl
  · split <;> first | rfl | contradiction

/-- Two evaluations agree on a node that is no parameter when they agree on what it reads. -/
theorem Evaluated.outputs_eq {n : Node} {kind kind' : OpKind}
    {args args' outputs outputs' : List Tensor} (h : Evaluated erf inputs s n kind args outputs)
    (h' : Evaluated erf inputs' s' n kind' args' outputs')
    (hkind : kind.name ≠ "Parameter")
    (hreads : ∀ e ∈ n.inputs, s.values[e.node]? = s'.values[e.node]?) : outputs = outputs' := by
  obtain rfl := Option.some.inj (h.known.symm.trans h'.known)
  have hargs : args = args' := by
    apply List.ext_getElem?
    intro i
    cases hi : args[i]? with
    | none =>
        have hlength := h.reads.length_eq.symm.trans h'.reads.length_eq
        rw [List.getElem?_eq_none_iff] at hi
        rw [eq_comm, List.getElem?_eq_none_iff, ← hlength]
        exact hi
    | some arg =>
        obtain ⟨e, he, hread⟩ := exists_left_of_forall₂ h.reads hi
        obtain ⟨arg', harg', hread'⟩ := exists_right_of_forall₂ h'.reads he
        rw [Progress.read?, hreads e (List.mem_of_getElem? he)] at hread
        rw [harg', ← hread, ← hread']
        rfl
  subst hargs
  have hcomputes := h.computes
  rw [Call.outputs_eq_of_ne_parameter hkind erf inputs inputs', h'.computes] at hcomputes
  exact (Except.ok.inj hcomputes).symm

/-- Two evaluations agree on the nodes on constant paths. -/
theorem values_eq_of_onConstantPath {g : Graph} (hg : g.SourcesReadNothing)
    (h : run erf inputs g.nodes = .ok s) (h' : run erf inputs' g.nodes = .ok s') {i : Nat}
    (hpath : g.OnConstantPath i) :
    ∃ outputs, s.values[i]? = some outputs ∧ s'.values[i]? = some outputs := by
  obtain ⟨-, hevaluated⟩ := evaluated_of_run h
  obtain ⟨-, hevaluated'⟩ := evaluated_of_run h'
  -- a node is treated alike in both evaluations, once what it reads is
  have hnode : ∀ (i : Nat) (n : Node), g.node? i = some n → n.type ≠ .single Opset.parameter →
      (∀ e ∈ n.inputs, ∃ outputs, s.values[e.node]? = some outputs ∧
        s'.values[e.node]? = some outputs) →
      ∃ outputs, s.values[i]? = some outputs ∧ s'.values[i]? = some outputs := by
    intro i n hn hparameter hproducers
    obtain ⟨kind, args, outputs, houtputs, hown⟩ := hevaluated i n hn
    obtain ⟨kind', args', outputs', houtputs', hown'⟩ := hevaluated' i n hn
    have hkind : kind.name ≠ "Parameter" := by
      intro hname
      have htype := Graph.inOpset_iff.1 hg.opset n (List.mem_of_getElem? hn)
      exact hparameter (Opset.eq_parameter_of_name _ htype kind hown.known hname)
    have hreads : ∀ e ∈ n.inputs, s.values[e.node]? = s'.values[e.node]? := by
      intro e he
      obtain ⟨outs, houts, houts'⟩ := hproducers e he
      rw [houts, houts']
    obtain rfl := hown.outputs_eq hown' hkind hreads
    exact ⟨outputs, houtputs, houtputs'⟩
  induction hpath with
  | @constant i n hn hconstant =>
      have hmem := List.mem_of_getElem? hn
      have htype := (hg.opset n hmem).type_eq_of_isA (by decide) hconstant
      apply hnode i n hn
      · rw [htype]
        decide
      · rw [hg.constants n hmem htype]
        simp
  | @computed i n hn hinputs _ ih =>
      apply hnode i n hn
      · intro hparameter
        exact hinputs (hg.parameters n (List.mem_of_getElem? hn) hparameter)
      · exact ih

end Evaluation

theorem Rule.checkConstantPath_eq_ok_iff {ctx : BuildContext} {n : Node} {input : Nat}
    {what : String} : checkConstantPath ctx n input what = .ok () ↔
      ∃ e, n.inputs[input]? = some e ∧ ctx.graph.isOnConstantPath? e.node = some true := by
  simp only [checkConstantPath, Outcome.bind_eq_ok_iff, Outcome.ofOption_eq_ok_iff]
  apply exists_congr
  intro e
  apply and_congr_right
  intro _
  constructor
  · rintro ⟨answer, hanswer, h⟩
    split at h
    · next htrue => exact htrue ▸ hanswer
    · exact absurd h Node.failParameter_ne_ok
  · intro hanswer
    exact ⟨true, hanswer, rfl⟩

/-- A layer is only lowered when everything but its first input is on a constant path. -/
theorem Lowerer.isOnConstantPath?_of_lower {l : Lowerer} {g : Graph} {options : BuildOptions}
    {lowered : Lowered} (hregistry : l.registry = .standard) (hoverlay : l.overlay = .empty)
    (h : l.lower g options = .ok lowered) (hopset : g.InOpset) {n : Node} (hn : n ∈ g.nodes)
    (hlayer : n.isA Opset.fullyConnected = true ∨ n.isA Opset.fullyConnectedCompressed = true)
    {k : Nat} (hk : 1 ≤ k) {e : Edge} (he : n.inputs[k]? = some e) :
    g.isOnConstantPath? e.node = some true := by
  obtain ⟨i, hi⟩ := List.mem_iff_getElem?.1 hn
  have htype := Graph.inOpset_iff.1 hopset n hn
  have hcheck : ∀ what, Rule.checkConstantPath (l.context g options) n k what = .ok () →
      g.isOnConstantPath? e.node = some true := by
    intro what hwhat
    obtain ⟨e', he', hpath⟩ := Rule.checkConstantPath_eq_ok_iff.1 hwhat
    obtain rfl := Option.some.inj (he.symm.trans he')
    exact hpath
  have hlt : k < n.inputs.length := (List.getElem?_eq_some_iff.1 he).1
  obtain ⟨-, -, hruled, -, hemits, -, -, -⟩ := loweredAt_of_lower h hregistry hi
  have hrule := ofType?_eq_of_ruleName? hoverlay hruled
  rcases hlayer with hplain | hcompressed
  · obtain rfl := Option.some.inj
      (hrule.symm.trans (Opset.ofType?_of_isA_fullyConnected _ htype hplain))
    cases hemits with
    | one becomes =>
        cases becomes with
        | fullyConnected arity weights output =>
            obtain rfl : k = 1 := by omega
            exact hcheck _ weights
  · obtain rfl := Option.some.inj
      (hrule.symm.trans (Opset.ofType?_of_isA_fullyConnectedCompressed _ htype hcompressed))
    cases hemits with
    | one becomes =>
        cases becomes with
        | fullyConnectedCompressed arity weights scale zeroPoint output =>
            obtain rfl | rfl | rfl : k = 1 ∨ k = 2 ∨ k = 3 := by omega
            · exact hcheck _ weights
            · exact hcheck _ scale
            · exact hcheck _ (zeroPoint hlt)

namespace Graph

/-- What is on a constant path does not depend on the inputs: two evaluations of a graph compute the
same tensors for every node that passes the test, and so for the weights, the decompression scale
and the zero point of every fully connected layer once the graph is lowered. -/
theorem constant_evaluate {g : Graph} {requests : List (String × NodeRequest)}
    (hg : ofRequests requests = .ok g) (hrequests : ∀ request ∈ requests, request.2.AsksForSources)
    {erf : ErrorFunction} {inputs inputs' results results' : NameMap Tensor}
    (h : g.evaluate erf inputs = .ok results)
    (h' : g.evaluate erf inputs' = .ok results') :
    ∃ s s', run erf inputs g.nodes = .ok s ∧ s.results = results ∧
      run erf inputs' g.nodes = .ok s' ∧ s'.results = results' ∧
      (∀ i, g.isOnConstantPath? i = some true →
        ∃ outputs, s.values[i]? = some outputs ∧ s'.values[i]? = some outputs) ∧
      ∀ (l : Lowerer) (options : BuildOptions) (lowered : Lowered), l.registry = .standard →
        l.overlay = .empty → l.lower g options = .ok lowered → ∀ n ∈ g.nodes,
          n.isA Opset.fullyConnected = true ∨ n.isA Opset.fullyConnectedCompressed = true →
          ∀ k, 1 ≤ k → ∀ e, n.inputs[k]? = some e →
            ∃ t, s.read? e = some t ∧ s'.read? e = some t := by
  obtain ⟨s, hrun, hresults⟩ := evaluate_eq_ok_iff.1 h
  obtain ⟨s', hrun', hresults'⟩ := evaluate_eq_ok_iff.1 h'
  have hconsistent := consistent_of_ofRequests hg
  have hsources := sourcesReadNothing_of_ofRequests hg hrequests
  have hvalues : ∀ i, g.isOnConstantPath? i = some true →
      ∃ outputs, s.values[i]? = some outputs ∧ s'.values[i]? = some outputs := by
    intro i hi
    exact values_eq_of_onConstantPath hsources hrun hrun'
      (onConstantPath_of_isOnConstantPath? hconsistent hi)
  refine ⟨s, s', hrun, hresults, hrun', hresults', hvalues, ?_⟩
  intro l options lowered hregistry hoverlay hlower n hn hlayer k hk e he
  obtain ⟨outputs, houtputs, houtputs'⟩ := hvalues e.node
    (l.isOnConstantPath?_of_lower hregistry hoverlay hlower hsources.opset hn hlayer hk he)
  -- the edge was read when the layer was evaluated, so the output is there
  obtain ⟨-, hevaluated⟩ := evaluated_of_run hrun
  obtain ⟨i, hi⟩ := List.mem_iff_getElem?.1 hn
  obtain ⟨kind, args, outs, -, hown⟩ := hevaluated i n hi
  obtain ⟨t, -, hread⟩ := exists_right_of_forall₂ hown.reads he
  refine ⟨t, hread, ?_⟩
  rw [Progress.read?, houtputs] at hread
  rw [Progress.read?, houtputs']
  exact hread

/-- A layer whose weights are the product of two constants. -/
def layerRequests : List (String × NodeRequest) :=
  [("x", .parameter (.ofSizes .f32 [1, 2])), ("w", .constant (.ofFloats [1, 2] ([3, 4].map .ofInt))),
    ("s", .constant (.ofFloats [1] [.ofInt 2])),
    ("v", .operation (.single ⟨"Multiply", "opset1"⟩) [⟨1, 0⟩, ⟨2, 0⟩] [.ofSizes .f32 [1, 2]] .empty),
    ("y", .operation (.single Opset.fullyConnected) [⟨0, 0⟩, ⟨3, 0⟩] [.ofSizes .f32 [1, 1]] .empty),
    ("r", .result ⟨4, 0⟩)]

/-- Inputs of the layer. -/
def layerInputs (a b : Int) : NameMap Tensor :=
  NameMap.empty.insert "x" ⟨[1, 2], .f32 #[.ofInt a, .ofInt b], rfl⟩

/-- The results of the layer change with its inputs, but its weights do not. -/
theorem constant_evaluate_layer : ∃ g results results' s s',
    ofRequests layerRequests = .ok g ∧ g.evaluate id (layerInputs 1 2) = .ok results ∧
      g.evaluate id (layerInputs 5 6) = .ok results' ∧ results ≠ results' ∧
      (∃ lowered, Lowerer.plain.lower g {} = .ok lowered) ∧
      run id (layerInputs 1 2) g.nodes = .ok s ∧ run id (layerInputs 5 6) g.nodes = .ok s' ∧
      ∃ t, s.read? ⟨3, 0⟩ = some t ∧ s'.read? ⟨3, 0⟩ = some t := by
  have htest : ((ofRequests layerRequests).toOption.any fun g =>
      (g.evaluate id (layerInputs 1 2)).toOption.any fun results =>
        (g.evaluate id (layerInputs 5 6)).toOption.any fun results' =>
          (Lowerer.plain.lower g {}).toOption.any fun _ => decide (results ≠ results' ∧
            ∃ n ∈ g.nodes, n.isA Opset.fullyConnected = true ∧ n.inputs[1]? = some ⟨3, 0⟩)) =
      true := by
    decide +kernel
  obtain ⟨g, hg, htest⟩ := Outcome.exists_of_any_toOption htest
  obtain ⟨results, h, htest⟩ := Outcome.exists_of_any_toOption htest
  obtain ⟨results', h', htest⟩ := Outcome.exists_of_any_toOption htest
  obtain ⟨lowered, hlower, htest⟩ := Outcome.exists_of_any_toOption htest
  obtain ⟨hdiffer, n, hn, hlayer, he⟩ := of_decide_eq_true htest
  have hrequests : ∀ request ∈ layerRequests, request.2.AsksForSources := by decide
  obtain ⟨s, s', hrun, -, hrun', -, -, hweights⟩ := constant_evaluate hg hrequests h h'
  exact ⟨g, results, results', s, s', hg, h, h', hdiffer, ⟨lowered, hlower⟩, hrun, hrun',
    hweights Lowerer.plain {} lowered rfl rfl hlower n hn (.inl hlayer) 1 le_rfl _ he⟩

end Graph

end TensorLowering
