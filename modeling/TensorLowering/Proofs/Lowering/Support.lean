import TensorLowering.Proofs.Lowering.History

/-!
# What is lowered is supported

A support query lowers one node in an empty build, under the regime that the node alone asks for and
with identities in place of primitives. If the node was lowered in a build, the query goes through
as well: the same rule emits from other sources, and only the reshape behind a product may come or
go.

## Implementation notes

`Emits.transfer` compares what a node becomes in two contexts of one graph. The reshape behind a
product needs an output without symbols, which a node has when it does not ask for the new
inference.
-/

namespace TensorLowering

/-- Two contexts of one graph, with the same configuration and device. -/
structure BuildContext.SameBuild (ctx other : BuildContext) : Prop where
  graph_eq : other.graph = ctx.graph
  config_eq : other.config = ctx.config
  device_eq : other.device = ctx.device

section Transfer

variable {ctx other : BuildContext} {n : Node} {identity : String} {sources others : List Source}
  {r : RuleName} {ps : List Primitive}

theorem BuildContext.SameBuild.checkConstantPath_eq (hsame : ctx.SameBuild other) (input : Nat)
    (what : String) :
    Rule.checkConstantPath other n input what = Rule.checkConstantPath ctx n input what := by
  rw [Rule.checkConstantPath, Rule.checkConstantPath, hsame.graph_eq]

/-- Which inputs a kernel binds depends on how many there are, not on what they are. -/
theorem boundInputs_transfer {k : KernelDescriptor} {inputs : List Source}
    (h : Rule.boundInputs n k sources = .ok inputs) (hlength : others.length = sources.length) :
    ∃ inputs', Rule.boundInputs n k others = .ok inputs' := by
  by_cases hnone : k.inputs = []
  · exact ⟨others, by simp [Rule.boundInputs, hnone]⟩
  · rw [Rule.boundInputs, if_neg hnone] at h ⊢
    apply Outcome.exists_mapM_eq_ok
    intro b hb
    obtain ⟨i, hi⟩ := List.mem_iff_getElem?.1 hb
    obtain ⟨source, -, hsource⟩ := Outcome.getElem?_of_mapM_eq_ok h hi
    split at hsource
    · next hread =>
      have hlt : b.index < others.length := by
        rw [hlength]
        exact (List.getElem?_eq_some_iff.1 hread).1
      refine ⟨others[b.index], ?_⟩
      rw [List.getElem?_eq_getElem hlt]
      rfl
    · exact absurd hsource Node.failParameter_ne_ok

/-- A node that becomes one primitive in one context becomes one in the other. -/
theorem Becomes.transfer (hsame : ctx.SameBuild other) (hlength : others.length = sources.length)
    {payload : Payload} {inputs : List Source} (h : Becomes ctx n sources r payload inputs) :
    ∃ inputs', Becomes other n others r payload inputs' := by
  cases h with
  | parameter arity output => exact ⟨_, .parameter arity output⟩
  | constant arity value => exact ⟨_, .constant arity value⟩
  | result arity output => exact ⟨_, .result arity output⟩
  | eltwise arity known named output => exact ⟨_, .eltwise arity known named output⟩
  | erf arity => exact ⟨_, .erf arity⟩
  | reduction arity known named input reads positions =>
      exact ⟨_, .reduction arity known named input (by rwa [hsame.graph_eq]) positions⟩
  | transpose input ordered length distinct =>
      exact ⟨_, .transpose input (by rwa [hsame.graph_eq]) length distinct⟩
  | reshape arity output => exact ⟨_, .reshape arity output⟩
  | concat arity declared output located => exact ⟨_, .concat arity declared output located⟩
  | fullyConnected arity weights output =>
      exact ⟨_, .fullyConnected arity (by rwa [hsame.checkConstantPath_eq]) output⟩
  | fullyConnectedCompressed arity weights scale zeroPoint output =>
      exact ⟨_, .fullyConnectedCompressed arity (by rwa [hsame.checkConstantPath_eq])
        (by rwa [hsame.checkConstantPath_eq])
        (fun hfour => by rw [hsame.checkConstantPath_eq]; exact zeroPoint hfour) output⟩
  | kernel bound written static defines globalWork localWork =>
      obtain ⟨inputs', hinputs'⟩ := boundInputs_transfer bound hlength
      exact ⟨_, .kernel hinputs' written static defines globalWork localWork⟩

/-- An operand has the same identifiers in front of the product, whatever it reads. -/
theorem Operand.transfer {side : String} {shape : Shape} {source input : Source} {moved : Bool}
    (h : Operand n side shape source moved ps input) (source' : Source) :
    ∃ ps' input', Operand n side shape source' moved ps' input' ∧
      ps'.map Primitive.id = ps.map Primitive.id := by
  cases h with
  | stays => exact ⟨_, _, .stays, rfl⟩
  | moves swap => exact ⟨_, _, .moves swap, rfl⟩

/-- Crops have the same identifiers, whatever they read. -/
theorem Crops.transfer {inputs : List Source} {axis output offset : Nat} {types : List TensorType}
    (h : Crops identity inputs axis output offset types ps) (inputs' : List Source) :
    ∃ ps', Crops identity inputs' axis output offset types ps' ∧
      ps'.map Primitive.id = ps.map Primitive.id := by
  induction h with
  | nil output offset => exact ⟨_, .nil output offset, rfl⟩
  | cons static extent _ ih =>
      obtain ⟨ps', hps', hids⟩ := ih
      exact ⟨_, .cons static extent hps', by rw [List.map_cons, List.map_cons, hids]; rfl⟩

/-- Names that end in different words of one length differ. -/
theorem append_ne_append {a b x y : String} (hlength : x.toList.length = y.toList.length)
    (hne : x.toList ≠ y.toList) : a ++ x ≠ b ++ y := by
  intro h
  have hchars := congrArg String.toList h
  rw [String.toList_append, String.toList_append] at hchars
  exact hne (List.append_inj_right' hchars hlength)

/-- The reshape behind a product has an identifier of its own. -/
theorem ProductTail.nodup {newShapeInference : Bool} {type : TensorType}
    {tail front : List Primitive} (h : ProductTail newShapeInference identity type tail)
    (hfront : (front.map Primitive.id).Nodup)
    (hids : ∀ id ∈ front.map Primitive.id, id ≠ identity ++ "_out_reshape") :
    ((front ++ tail).map Primitive.id).Nodup := by
  rcases h.eq_nil_or_singleton with rfl | ⟨p, rfl, hid, -⟩
  · rwa [List.append_nil]
  · rw [List.map_append, List.map_singleton, hid]
    exact List.nodup_append.2 ⟨hfront, by simp, by simpa using hids⟩

theorem Operand.id_ne {side : String} {shape : Shape} {source input : Source} {moved : Bool}
    (h : Operand n side shape source moved ps input)
    (hside : side = "/transpose_a" ∨ side = "/transpose_b") :
    ∀ id ∈ ps.map Primitive.id, id ≠ identity ++ "_out_reshape" := by
  intro id hmem
  rcases h.eq_nil_or_singleton with ⟨rfl, -⟩ | ⟨p, rfl, hid, -⟩
  · simp at hmem
  · obtain rfl : id = n.name ++ side := by simpa [hid] using hmem
    rcases hside with rfl | rfl <;> exact append_ne_append (by decide) (by decide)

/-- What a node becomes in one context tells that it becomes something in the other, where distinct
identifiers stay distinct. -/
theorem Emits.transfer (hsame : ctx.SameBuild other) (hlength : others.length = sources.length)
    (hstatic : other.newShapeInference = false → ∀ type, n.outputs[0]? = some type →
      ∃ sizes, type.shape.sizes? = some sizes)
    (h : Emits ctx n identity sources r ps) (hdistinct : (ps.map Primitive.id).Nodup) :
    ∃ ps', Emits other n identity others r ps' ∧ (ps'.map Primitive.id).Nodup := by
  cases h with
  | one becomes =>
      obtain ⟨inputs', hbecomes⟩ := becomes.transfer hsame hlength
      exact ⟨_, .one hbecomes, hdistinct⟩
  | split arity input reads first located crops =>
      obtain ⟨ps', hcrops, hids⟩ := crops.transfer (others.take 1)
      exact ⟨ps', .split arity input (by rwa [hsame.graph_eq]) first located hcrops,
        hids ▸ hdistinct⟩
  | @matMul a b type sourceA sourceB inputA inputB psA psB tail arity readsA readsB typeA typeB
      output
      operandA operandB behind =>
      obtain ⟨hltA, -⟩ := List.getElem?_eq_some_iff.1 readsA
      obtain ⟨hltB, -⟩ := List.getElem?_eq_some_iff.1 readsB
      have hmoves : other.moves n a b = ctx.moves n a b := by
        rw [BuildContext.moves, BuildContext.moves, hsame.config_eq, hsame.device_eq]
      rw [← hmoves] at operandA operandB
      obtain ⟨otherA, hotherA⟩ : ∃ source, others[0]? = some source :=
        ⟨_, List.getElem?_eq_getElem (by omega)⟩
      obtain ⟨otherB, hotherB⟩ : ∃ source, others[1]? = some source :=
        ⟨_, List.getElem?_eq_getElem (by omega)⟩
      obtain ⟨psA', inputA', hA, hidsA⟩ := operandA.transfer otherA
      obtain ⟨psB', inputB', hB, hidsB⟩ := operandB.transfer otherB
      obtain ⟨tail', htail'⟩ :
          ∃ tail', ProductTail other.newShapeInference identity type tail' := by
        cases hregime : other.newShapeInference with
        | true => exact ⟨[], .none rfl⟩
        | false =>
            obtain ⟨sizes, hsizes⟩ := hstatic hregime type output
            by_cases hrank : sizes.length < Rule.nativeProductRank
            · exact ⟨_, .reshape rfl hsizes hrank⟩
            · exact ⟨[], .native rfl hsizes (by omega)⟩
      refine ⟨_, .matMul arity hotherA hotherB typeA typeB output hA hB htail', htail'.nodup ?_ ?_⟩
      · rw [List.map_append, List.map_append, hidsA, hidsB]
        rw [List.map_append, List.map_append, List.map_append] at hdistinct
        exact (List.nodup_append.1 hdistinct).1
      · intro id hid
        rw [List.map_append, List.map_append, List.mem_append, List.mem_append] at hid
        rcases hid with (hid | hid) | hid
        · exact hA.id_ne (.inl rfl) id hid
        · exact hB.id_ne (.inr rfl) id hid
        · obtain rfl : id = identity := by simpa using hid
          intro h
          have hlen := congrArg (fun s : String => s.toList.length) h
          simp [String.toList_append] at hlen

end Transfer

/-- A node that does not ask for the new inference has an output without symbols. -/
theorem Node.exists_sizes_of_needsNewShapeInference_eq_false {n : Node}
    (h : n.needsNewShapeInference = false) {type : TensorType}
    (houtput : n.outputs[0]? = some type) :
    ∃ sizes, type.shape.sizes? = some sizes := by
  apply Shape.exists_sizes_of_isDynamic_eq_false
  have hstatic : n.isDynamic = false := by
    simp only [Node.needsNewShapeInference, Bool.or_eq_false_iff] at h
    exact h.1.1
  simp only [Node.isDynamic, List.any_eq_false, Bool.not_eq_true] at hstatic
  exact hstatic type (List.mem_append_right _ (List.mem_of_getElem? houtput))

namespace Lowerer

open Build

variable {l : Lowerer} {g : Graph} {options : BuildOptions} {lowered : Lowered} {n : Node}

/-- In a query the inputs of a node are resolved whenever they are in a build. -/
theorem exists_query_sources {ids : IdentityMap} {sources : List Source}
    (h : (l.context g options).inputs ids n = .ok sources) :
    ∃ others, (l.queryContext g n).inputs .empty n = .ok others ∧
      others.length = sources.length := by
  obtain ⟨others, hothers⟩ : ∃ others, (l.queryContext g n).inputs .empty n = .ok others := by
    apply Outcome.exists_mapM_eq_ok
    intro e he
    obtain ⟨i, hi⟩ := List.mem_iff_getElem?.1 he
    obtain ⟨source, -, hsource⟩ := Outcome.getElem?_of_mapM_eq_ok h hi
    obtain ⟨producer, target, hproducer, htarget, -⟩ := Edge.resolve_eq_ok_iff.1 hsource
    obtain ⟨identity, hidentity, -⟩ := Edge.target_eq_ok_iff.1 htarget
    exact ⟨_, Edge.resolve_query_eq_ok_iff.2
      ⟨producer, hproducer, Edge.target_eq_ok_iff.2 ⟨identity, hidentity, rfl⟩⟩⟩
  refine ⟨others, hothers, ?_⟩
  rw [BuildContext.length_inputs hothers, BuildContext.length_inputs h]

/-- A node that was lowered in a build can be lowered on its own. -/
theorem Lowers.exists_query {s s' : BuildState} {ps : List Primitive}
    (h : l.Lowers (l.context g options) n s ps s') :
    ∃ ps' final, l.Lowers (l.queryContext g n) n .empty ps' final := by
  obtain ⟨hlabel, hidentity, hruled, hsources, hemits, hadds⟩ := h
  obtain ⟨others, hothers, hlength⟩ := exists_query_sources hsources
  have hsame : (l.context g options).SameBuild (l.queryContext g n) := ⟨rfl, rfl, rfl⟩
  obtain ⟨ps', hemits', hdistinct'⟩ := hemits.transfer hsame hlength
    (fun hlegacy _ houtput => n.exists_sizes_of_needsNewShapeInference_eq_false hlegacy houtput)
    hadds.nodup_ids
  obtain ⟨final, hfinal⟩ := BuildState.Adds.exists_of_fresh (s := .empty)
    (by simp [BuildState.empty, Topology.empty, Topology.ids]) hdistinct'
  exact ⟨ps', final, hlabel, hidentity, hruled, hothers, hemits', hfinal⟩

theorem probe_eq_ok_of_lower (hregistry : l.registry = .standard)
    (h : l.lower g options = .ok lowered) {i : Nat} (hi : i < g.size) : l.probe g i = .ok () := by
  have hn : g.node? i = some g.nodes[i] := List.getElem?_eq_getElem hi
  obtain ⟨ps, hps⟩ := lowers_of_lower h hregistry hn
  obtain ⟨ps', final, hquery⟩ := hps.exists_query
  have hends := (ends_lowerNode_iff hregistry).2 ⟨ps', hquery⟩
  rw [probe, hn]
  exact congrArg Prod.fst hends

/-- Asking node after node: the verdicts are those of the nodes. -/
theorem foldlM_support_eq_ok {nodes : List Node}
    (h : ∀ n ∈ nodes, l.isSupported g n.id = .ok true) (verdicts : NameMap Bool) :
    ∃ final, nodes.foldlM (fun verdicts n => do
        pure (verdicts.insert n.name (← l.isSupported g n.id))) verdicts = .ok final ∧
      (∀ n ∈ nodes, final.get? n.name = some true) ∧
      ∀ name, verdicts.get? name = some true → final.get? name = some true := by
  induction nodes generalizing verdicts with
  | nil => exact ⟨verdicts, rfl, by simp, fun _ h => h⟩
  | cons n rest ih =>
      obtain ⟨hn, hrest⟩ := List.forall_mem_cons.1 h
      obtain ⟨final, hfinal, hall, hkept⟩ := ih hrest (verdicts.insert n.name true)
      refine ⟨final, ?_, ?_, ?_⟩
      · rw [List.foldlM_cons, hn]
        exact hfinal
      · intro m hm
        rcases List.mem_cons.1 hm with rfl | hm
        · apply hkept
          simp [NameMap.get?_insert]
        · exact hall m hm
      · intro name hname
        apply hkept
        by_cases heq : name = n.name <;> simp [NameMap.get?_insert, heq, hname]

/-- Support queries have no false negatives: when a graph is lowered, each of its nodes can be
lowered on its own, and every name is reported as supported. -/
theorem support_of_lower (hregistry : l.registry = .standard)
    {requests : List (String × NodeRequest)} (hg : Graph.ofRequests requests = .ok g)
    (h : l.lower g options = .ok lowered) :
    (∀ i < g.size, l.probe g i = .ok ()) ∧
      ∃ verdicts, l.support g = .ok verdicts ∧ ∀ n ∈ g.nodes, verdicts.get? n.name = some true := by
  have hprobe : ∀ i < g.size, l.probe g i = .ok () := fun i hi =>
    probe_eq_ok_of_lower hregistry h hi
  refine ⟨hprobe, ?_⟩
  have hsupported : ∀ n ∈ g.nodes, l.isSupported g n.id = .ok true := by
    intro n hn
    obtain ⟨i, hi⟩ := List.mem_iff_getElem?.1 hn
    have hid : n.id = i := (Graph.consistent_of_ofRequests hg).id_eq i n hi
    rw [isSupported, hid, hprobe i (List.getElem?_eq_some_iff.1 hi).1]
  obtain ⟨verdicts, hverdicts, hall, -⟩ := foldlM_support_eq_ok hsupported .empty
  exact ⟨verdicts, hverdicts, hall⟩

/-- Every node of the product of two matrices is supported. -/
theorem support_product : (∀ i < Graph.product.size, plain.probe .product i = .ok ()) ∧
    ∃ verdicts, plain.support .product = .ok verdicts ∧
      ∀ n ∈ Graph.product.nodes, verdicts.get? n.name = some true := by
  obtain ⟨lowered, h⟩ := exists_lowered_product
  exact support_of_lower rfl Graph.ofRequests_productRequests h

end Lowerer

end TensorLowering
