import TensorLowering.Proofs.Lowering.Identifiers
import TensorLowering.Proofs.Lowering.Returns

/-!
# Lowering returns

Every rule returns for a node that the graph provides for: its checks come before what relies on
them. So lowering an assembled graph ends with a topology or with an error, and the support of each
of its nodes has an answer, whatever the configuration, the device, the overlay and the constants
are.

## Main statements

* `Build.returns_rule`: all rules return.
* `Lowerer.lower_returns`: lowering and support queries return.
-/

namespace TensorLowering

open Outcome

namespace Node

/-- A node has a kind, as all nodes have whose type was not read from a document, and it declares an
output; if it is a split, each output has the rank of what is split. -/
structure ShapeConsistent (n : Node) : Prop where
  typed : n.type.levels ≠ []
  declares : n.outputs ≠ []
  parts : n.isSplit = true → ∀ input ∈ n.inputTypes.head?, ∀ output ∈ n.outputs,
    output.shape.rank = input.shape.rank

instance (n : Node) : Decidable n.ShapeConsistent :=
  decidable_of_iff (n.type.levels ≠ [] ∧ n.outputs ≠ [] ∧ (n.isSplit = true →
      ∀ input ∈ n.inputTypes.head?, ∀ output ∈ n.outputs, output.shape.rank = input.shape.rank))
    ⟨fun h => ⟨h.1, h.2.1, h.2.2⟩, fun h => ⟨h.typed, h.declares, h.parts⟩⟩

end Node

/-- An assembled graph whose nodes are consistent provides for each of them. -/
theorem BuildContext.provides {ctx : BuildContext} (hg : ctx.graph.Consistent)
    (hshapes : ∀ n ∈ ctx.graph.nodes, n.ShapeConsistent) {i : Nat} {n : Node}
    (hn : ctx.graph.nodes[i]? = some n) : ctx.Provides n := by
  have hkinds : ∀ m ∈ ctx.graph.nodes, ∃ kind, m.kind? = some kind := by
    intro m hm
    obtain ⟨kind, rest, hlevels⟩ := List.exists_cons_of_ne_nil (hshapes m hm).typed
    exact ⟨kind, by rw [Node.kind?, OpType.kind?, hlevels, List.head?_cons]⟩
  have hconsistent := hshapes n (List.mem_of_getElem? hn)
  constructor
  case kind => exact hkinds n (List.mem_of_getElem? hn)
  case output =>
    obtain ⟨type, rest, houtputs⟩ := List.exists_cons_of_ne_nil hconsistent.declares
    exact ⟨type, by rw [houtputs, List.getElem?_cons_zero]⟩
  case types => exact (hg.leads i n hn).length_eq.symm
  case producers =>
    intro e he
    obtain ⟨_, -, producer, hproducer, -⟩ := hg.leads_of_mem hn he
    obtain ⟨kind, hkind⟩ := hkinds producer (List.mem_of_getElem? hproducer)
    exact ⟨producer, kind, hproducer, hkind⟩
  case paths =>
    intro e he
    obtain ⟨_, -, producer, hproducer, -⟩ := hg.leads_of_mem hn he
    exact Graph.exists_isOnConstantPath? hg (List.getElem?_eq_some_iff.1 hproducer).1
  case parts => exact hconsistent.parts

theorem TransposeOrder.lt {g : Graph} {n : Node} {rank : Nat} {order : List Nat}
    (h : TransposeOrder g n rank order) : ∀ axis ∈ order, axis < rank := by
  cases h with
  | given arity reads positions =>
      intro axis haxis
      obtain ⟨i, hi⟩ := List.mem_iff_getElem?.1 haxis
      obtain ⟨value, -, hposition⟩ := exists_left_of_forall₂ positions hi
      exact axisPosition?_lt hposition
  | reversed arity =>
      intro axis haxis
      exact List.mem_range.1 (List.mem_reverse.1 haxis)

/-- Axes that have a mark can be looked up. -/
theorem Rule.returns_firstRepeated {marks : List Bool} {order : List Nat}
    (h : ∀ axis ∈ order, axis < marks.length) : Returns (firstRepeated marks order) := by
  induction order generalizing marks with
  | nil => exact returns_pure none
  | cons axis rest ih =>
      obtain ⟨haxis, hrest⟩ := List.forall_mem_cons.1 h
      refine returns_ofOption_bind (List.getElem?_eq_getElem haxis) ?_
      refine Returns.ite (fun _ => returns_pure _) fun _ => ih ?_
      intro later hlater
      rw [List.length_set]
      exact hrest later hlater

/-- Transposes are only moved in front of operands that have two axes. -/
theorem MatMulTuning.rank_of_movesTransposes {t : MatMulTuning} {a b : Shape}
    {transposeA transposeB integerProducts : Bool} {element : ElementType}
    (h : t.movesTransposes a b transposeA transposeB element integerProducts = true) :
    2 ≤ a.rank ∧ 2 ≤ b.rank := by
  simp only [movesTransposes, List.all_cons, List.all_nil, Bool.and_eq_true, decide_eq_true_eq] at h
  obtain ⟨⟨⟨-, ⟨-, ha⟩, ⟨-, hb⟩, -⟩, -⟩, -⟩ := h
  exact ⟨ha, hb⟩

/-- The permutation in front of an operand swaps axes that there are. -/
theorem Rule.returns_moveTranspose {n : Node} {moved : Bool} {side : String} {shape : Shape}
    {source input : Source} {steps : Emission}
    (h : moveTranspose n moved side shape source = (steps, input))
    (hrank : moved = true → 2 ≤ shape.rank) : ∀ step ∈ steps, Returns step := by
  cases moved with
  | false =>
      cases h
      simp
  | true =>
      cases h
      intro step hstep
      obtain rfl := List.mem_singleton.1 hstep
      have hswap : ∃ order, swapLastTwo? shape.rank = some order := by
        rw [swapLastTwo?, if_pos (hrank rfl)]
        exact ⟨_, rfl⟩
      exact (returns_ofOption hswap).bind fun order _ => returns_pure _

/-- Work sizes are read, or refused. -/
theorem Rule.returns_workSizes (d : Overlay.WorkExtents) (expressions : List String) :
    Returns (workSizes d expressions) := by
  refine Returns.mapM fun _ _ => ?_
  split
  · exact returns_pure _
  · exact returns_fail _

namespace Build

variable {ctx : BuildContext} {n : Node} (h : ctx.Provides n)

include h

theorem returns_parameter : Returns (Rule.parameter ctx n) := by
  refine returns_ofEmission h.kind fun ids => ?_
  refine Emission.returns_checkArity_bind h.kind fun _ => ?_
  refine .bind (Node.returns_identity h.kind) fun identity _ => ?_
  exact .bind h.returns_outputType fun type _ => Emission.returns_single _

theorem returns_constant : Returns (Rule.constant ctx n) := by
  refine returns_ofEmission h.kind fun ids => ?_
  refine Emission.returns_checkArity_bind h.kind fun _ => ?_
  split
  · exact .bind (Node.returns_identity h.kind) fun _ _ => Emission.returns_single _
  · exact Emission.returns_failParameter h.kind _

theorem returns_result : Returns (Rule.result ctx n) := by
  refine returns_ofEmission h.kind fun ids => ?_
  refine Emission.returns_checkArity_bind h.kind fun _ => ?_
  refine .bind (h.returns_inputs ids) fun _ _ => ?_
  refine .bind (Node.returns_identity h.kind) fun _ _ => ?_
  exact .bind h.returns_outputType fun _ _ => Emission.returns_single _

theorem returns_eltwise : Returns (Rule.eltwise ctx n) := by
  refine returns_ofEmission h.kind fun ids => ?_
  refine Emission.returns_checkArity_bind h.kind fun _ => ?_
  refine .bind (Node.returns_kindName h.kind) fun _ _ => ?_
  split
  · refine .bind (h.returns_inputs ids) fun _ _ => ?_
    refine .bind (Node.returns_identity h.kind) fun _ _ => ?_
    exact .bind h.returns_outputType fun _ _ => Emission.returns_single _
  · exact Emission.returns_failUnsupported h.kind

theorem returns_erf : Returns (Rule.erf ctx n) := by
  refine returns_ofEmission h.kind fun ids => ?_
  refine Emission.returns_checkArity_bind h.kind fun _ => ?_
  refine .bind (h.returns_inputs ids) fun _ _ => ?_
  exact .bind (Node.returns_identity h.kind) fun _ _ => Emission.returns_single _

theorem returns_reduction : Returns (Rule.reduction ctx n) := by
  refine returns_ofEmission h.kind fun ids => ?_
  refine Emission.returns_checkArity_bind h.kind fun harity => ?_
  rw [List.mem_singleton] at harity
  refine .bind (Node.returns_kindName h.kind) fun _ _ => ?_
  split
  · refine .bind (h.returns_inputs ids) fun _ _ => ?_
    refine .bind (h.returns_inputType (by omega)) fun _ _ => ?_
    refine .bind (h.returns_integerInput _ _) fun _ _ => ?_
    refine .bind (Outcome.Returns.mapM fun _ _ => Node.returns_axisPosition h.kind _ _) fun _ _ => ?_
    exact .bind (Node.returns_identity h.kind) fun _ _ => Emission.returns_single _
  · exact Emission.returns_failUnsupported h.kind

theorem returns_transposeOrder (rank : Nat) : Outcome.Returns (Rule.transposeOrder ctx n rank) := by
  refine Outcome.Returns.ite (fun _ => ?_) fun _ => Outcome.returns_pure _
  refine (h.returns_integerInput _ _).bind fun _ _ => ?_
  exact Outcome.Returns.mapM fun _ _ => Node.returns_axisPosition h.kind _ _

/-- Every axis of the order was found to be in range, so it has a mark. -/
theorem returns_transpose : Returns (Rule.transpose ctx n) := by
  refine returns_ofEmission h.kind fun ids => ?_
  refine Emission.returns_checkArity_bind h.kind fun harity => ?_
  have hinput : 0 < n.inputs.length := by
    simp only [List.mem_cons, List.not_mem_nil, or_false] at harity
    omega
  refine .bind (h.returns_inputs ids) fun _ _ => ?_
  refine .bind (h.returns_inputType hinput) fun type _ => ?_
  refine .bind (returns_transposeOrder h _) fun order horder => ?_
  rw [transposeOrder_eq_ok_iff harity] at horder
  refine .ite (fun _ => Emission.returns_failParameter_bind h.kind _ _) fun _ => ?_
  refine .bind (Rule.returns_firstRepeated fun axis haxis => ?_) fun repeated _ => ?_
  · rw [List.length_replicate]
    exact horder.lt axis haxis
  · split
    · exact Emission.returns_failParameter h.kind _
    · exact .bind (Node.returns_identity h.kind) fun _ _ => Emission.returns_single _

theorem returns_reshape : Returns (Rule.reshape ctx n) := by
  refine returns_ofEmission h.kind fun ids => ?_
  refine Emission.returns_checkArity_bind h.kind fun _ => ?_
  refine .bind (h.returns_inputs ids) fun _ _ => ?_
  refine .bind h.returns_outputType fun _ _ => ?_
  exact .bind (Node.returns_identity h.kind) fun _ _ => Emission.returns_single _

theorem returns_concat : Returns (Rule.concat ctx n) := by
  refine returns_ofEmission h.kind fun ids => ?_
  refine .ite (fun _ => .bind (Node.returns_label h.kind) fun _ _ => Emission.returns_fail_bind _ _) ?_
  intro _
  refine .bind (h.returns_inputs ids) fun _ _ => ?_
  split
  · refine .bind h.returns_outputType fun _ _ => ?_
    refine .bind (Node.returns_axisPosition h.kind _ _) fun _ _ => ?_
    exact .bind (Node.returns_identity h.kind) fun _ _ => Emission.returns_single _
  · exact Emission.returns_failParameter h.kind _

theorem returns_fullyConnected : Returns (Rule.fullyConnected ctx n) := by
  refine returns_ofEmission h.kind fun ids => ?_
  refine Emission.returns_checkArity_bind h.kind fun harity => ?_
  rw [List.mem_singleton] at harity
  refine .bind (h.returns_checkConstantPath (by omega) _) fun _ _ => ?_
  refine .bind (h.returns_inputs ids) fun _ _ => ?_
  refine .bind (Node.returns_identity h.kind) fun _ _ => ?_
  exact .bind h.returns_outputType fun _ _ => Emission.returns_single _

theorem returns_fullyConnectedCompressed : Returns (Rule.fullyConnectedCompressed ctx n) := by
  refine returns_ofEmission h.kind fun ids => ?_
  refine Emission.returns_checkArity_bind h.kind fun harity => ?_
  have hthree : 3 ≤ n.inputs.length := by
    simp only [List.mem_cons, List.not_mem_nil, or_false] at harity
    omega
  have hlast : Emission.Returns (do
      let inputs ← ctx.inputs ids n
      let payload := Payload.fullyConnected true (n.inputs.length = 4) (← n.outputType 0).element
      pure [.ok (.new (← n.identity) payload inputs)]) := by
    refine .bind (h.returns_inputs ids) fun _ _ => ?_
    refine .bind h.returns_outputType fun _ _ => ?_
    exact .bind (Node.returns_identity h.kind) fun _ _ => Emission.returns_single _
  refine .bind (h.returns_checkConstantPath (by omega) _) fun _ _ => ?_
  refine .bind (h.returns_checkConstantPath (by omega) _) fun _ _ => ?_
  refine .ite (fun hfour => ?_) fun _ => hlast
  exact .bind (h.returns_checkConstantPath hfour _) fun _ _ => hlast

/-- The extent of a part is looked up at an axis that the part has. -/
theorem returns_splitLength {axis : Nat} {type : TensorType} (haxis : axis < type.shape.rank) :
    Outcome.Returns (Rule.splitLength n axis type) := by
  refine (Node.returns_staticSizes h.kind _ _).bind fun sizes hsizes => returns_ofOption ?_
  rw [Node.staticSizes_eq_ok_iff] at hsizes
  rw [← Shape.length_of_sizes? hsizes] at haxis
  exact ⟨_, List.getElem?_eq_getElem haxis⟩

theorem returns_crops {axis : Nat} {types : List TensorType}
    (htypes : ∀ type ∈ types, axis < type.shape.rank) (identity : String) (inputs : List Source)
    (output offset : Nat) :
    ∀ step ∈ Rule.crops n identity inputs axis output offset types, Outcome.Returns step := by
  induction types generalizing output offset with
  | nil => simp [Rule.crops]
  | cons type types ih =>
      obtain ⟨htype, htypes⟩ := List.forall_mem_cons.1 htypes
      have hlength := returns_splitLength h htype
      rw [Rule.crops]
      split
      · exact List.forall_mem_cons.2 ⟨returns_ok _, ih htypes _ _⟩
      · next fault hfault =>
        rw [hfault] at hlength
        exact List.forall_mem_singleton.2 hlength.error

/-- The axis is one of the input, and with it one of each output. -/
theorem returns_split (hsplit : n.isSplit = true) : Returns (Rule.split ctx n) := by
  refine returns_ofEmission h.kind fun ids => ?_
  refine Emission.returns_checkArity_bind h.kind fun harity => ?_
  have hinput : 0 < n.inputs.length := by
    split at harity
    · rw [List.mem_singleton.1 harity]
      decide
    · rw [List.mem_singleton.1 harity]
      decide
  refine .bind (h.returns_inputs ids) fun _ _ => ?_
  refine .bind (h.returns_integerInput _ _) fun _ _ => ?_
  split
  · refine .bind (h.returns_inputType hinput) fun input hfirst => ?_
    refine .bind (Node.returns_axisPosition h.kind _ _) fun position hposition => ?_
    refine .bind (Node.returns_identity h.kind) fun _ _ => ?_
    rw [Node.inputType_eq_ok_iff, ← List.head?_eq_getElem?] at hfirst
    rw [Node.axisPosition_eq_ok_iff] at hposition
    refine Emission.returns_pure (returns_crops h (fun output houtput => ?_) _ _ _ _)
    rw [h.parts hsplit input hfirst output houtput]
    exact axisPosition?_lt hposition
  · exact Emission.returns_failParameter h.kind _

theorem returns_productReshape (identity : String) :
    Outcome.Returns (Rule.productReshape n identity) := by
  refine h.returns_outputType.bind fun _ _ => ?_
  exact (Node.returns_staticSizes h.kind _ _).bind fun _ _ => Outcome.returns_pure _

/-- Operands are only swapped when both have two axes, and inputs are there by the arity. -/
theorem returns_matMul : Returns (Rule.matMul ctx n) := by
  refine returns_ofEmission h.kind fun ids => ?_
  refine Emission.returns_checkArity_bind h.kind fun harity => ?_
  rw [List.mem_singleton] at harity
  refine .bind (h.returns_inputs ids) fun sources hsources => ?_
  have hlength : sources.length = 2 := (BuildContext.length_inputs hsources).trans harity
  refine .bind (Node.returns_identity h.kind) fun identity _ => ?_
  refine .bind (h.returns_inputType (by omega)) fun a _ => ?_
  refine .bind (h.returns_inputType (by omega)) fun b _ => ?_
  have hranks : ctx.moves n a b = true → 2 ≤ a.shape.rank ∧ 2 ≤ b.shape.rank :=
    MatMulTuning.rank_of_movesTransposes
  refine .bind (returns_ofOption ⟨_, List.getElem?_eq_getElem (by omega)⟩) fun sourceA _ => ?_
  split
  next stepsA inputA hstepsA =>
  refine .bind (returns_ofOption ⟨_, List.getElem?_eq_getElem (by omega)⟩) fun sourceB _ => ?_
  split
  next stepsB inputB hstepsB =>
  have hA : ∀ step ∈ stepsA, Outcome.Returns step := by
    apply Rule.returns_moveTranspose hstepsA
    intro hmoved
    exact (hranks (Bool.and_eq_true_iff.1 hmoved).1).1
  have hB : ∀ step ∈ stepsB, Outcome.Returns step := by
    apply Rule.returns_moveTranspose hstepsB
    intro hmoved
    exact (hranks (Bool.and_eq_true_iff.1 hmoved).1).2
  apply Emission.returns_pure
  intro step hstep
  rw [List.mem_append, List.mem_append, List.mem_append, or_assoc, or_assoc] at hstep
  rcases hstep with hstep | hstep | hstep | hstep
  · exact hA step hstep
  · exact hB step hstep
  · obtain rfl := List.mem_singleton.1 hstep
    exact h.returns_outputType.bind fun _ _ => Outcome.returns_pure _
  · have hreshape := returns_productReshape h identity
    split at hstep
    · cases hstep
    · split at hstep
      · obtain rfl := List.mem_singleton.1 hstep
        exact returns_ok _
      · cases hstep
      · next fault hfault =>
        obtain rfl := List.mem_singleton.1 hstep
        rw [hfault] at hreshape
        exact hreshape.error

theorem returns_boundInputs (k : KernelDescriptor) (inputs : List Source) :
    Outcome.Returns (Rule.boundInputs n k inputs) := by
  refine Outcome.Returns.ite (fun _ => Outcome.returns_pure _) fun _ => ?_
  refine Outcome.Returns.mapM fun _ _ => ?_
  split
  · exact Outcome.returns_pure _
  · exact Node.returns_failParameter h.kind _

theorem returns_boundOutput (k : KernelDescriptor) :
    Outcome.Returns (Rule.boundOutput n k) := by
  rw [Rule.boundOutput]
  split
  · exact Outcome.returns_pure _
  · exact Node.returns_failParameter h.kind _

theorem returns_buildOptions (k : KernelDescriptor) :
    Outcome.Returns (Rule.buildOptions n k) := by
  refine (Outcome.Returns.mapM fun _ _ => ?_).bind fun _ _ => Outcome.returns_pure _
  split
  · exact Outcome.returns_pure _
  · exact Node.returns_failParameter h.kind _

/-- A kernel checks what it binds, so nothing is asked of the node beyond its inputs. -/
theorem returns_kernel (k : KernelDescriptor) : Returns (Rule.kernel k ctx n) := by
  refine returns_ofEmission h.kind fun ids => ?_
  refine .bind (h.returns_inputs ids) fun sources _ => ?_
  refine .bind (returns_boundInputs h k sources) fun _ _ => ?_
  refine .bind (returns_boundOutput h k) fun _ _ => ?_
  refine .bind (Node.returns_staticSizes h.kind _ _) fun _ _ => ?_
  refine .bind (returns_buildOptions h k) fun _ _ => ?_
  refine .bind (Rule.returns_workSizes _ _) fun _ _ => ?_
  refine .bind (Rule.returns_workSizes _ _) fun _ _ => ?_
  exact .bind (Node.returns_identity h.kind) fun _ _ => Emission.returns_single _

/-- Every rule returns for a node that the graph provides for; the rule of splits does for splits. -/
theorem returns_rule (r : RuleName) (hsplit : r = .split → n.isSplit = true) :
    Returns (r.rule ctx n) := by
  cases r with
  | parameter => exact returns_parameter h
  | constant => exact returns_constant h
  | result => exact returns_result h
  | eltwise => exact returns_eltwise h
  | erf => exact returns_erf h
  | reduction => exact returns_reduction h
  | split => exact returns_split h (hsplit rfl)
  | transpose => exact returns_transpose h
  | reshape => exact returns_reshape h
  | concat => exact returns_concat h
  | matMul => exact returns_matMul h
  | fullyConnected => exact returns_fullyConnected h
  | fullyConnectedCompressed => exact returns_fullyConnectedCompressed h
  | kernel k => exact returns_kernel h k

end Build

/-- Only kinds of splits have the rule of splits. -/
theorem RuleName.eq_of_mem_table_split : ∀ entry ∈ RuleName.table, entry.2 = .split →
    entry.1 = Opset.split ∨ entry.1 = Opset.variadicSplit := by
  decide

/-- A node that is handed to the rule of splits is a split. -/
theorem Node.isSplit_of_rule {n : Node}
    (h : (n.type.levels.findSome? fun level => RuleName.table.lookup level) = some .split) :
    n.isSplit = true := by
  obtain ⟨level, hlevel, hrule⟩ := List.exists_of_findSome?_eq_some h
  obtain ⟨before, after, htable, -⟩ := List.lookup_eq_some_iff.1 hrule
  have hmem : (level, RuleName.split) ∈ RuleName.table := by
    rw [htable]
    exact List.mem_append_right _ List.mem_cons_self
  rw [Node.isSplit, Node.isA, Node.isA, OpType.isA, OpType.isA, Bool.or_eq_true,
    List.contains_iff_mem, List.contains_iff_mem]
  rcases RuleName.eq_of_mem_table_split _ hmem rfl with rfl | rfl
  · exact .inl hlevel
  · exact .inr hlevel

namespace Lowerer

variable {l : Lowerer} {g : Graph} {ctx : BuildContext} {n : Node}

theorem returns_lowerNode (hregistry : l.registry = .standard) (h : ctx.Provides n) :
    Build.Returns (l.lowerNode ctx n) := by
  refine (Build.returns_lift (Node.returns_kindName h.kind)).bind fun _ name _ _ => ?_
  split
  · exact Build.returns_kernel h _
  · split
    · next level rule hfound =>
      have hrule := findRule?_standard hregistry n.type
      rw [hfound, Option.map_some] at hrule
      obtain ⟨r, hr, hrule⟩ := Option.map_eq_some_iff.1 hrule.symm
      subst hrule
      refine Build.returns_rule h r ?_
      rintro rfl
      exact Node.isSplit_of_rule hr
    · exact Build.returns_lift (Node.returns_failUnsupported h.kind)

theorem returns_lower (hregistry : l.registry = .standard) (hg : g.Consistent)
    (hshapes : ∀ n ∈ g.nodes, n.ShapeConsistent) (options : BuildOptions) :
    Returns (l.lower g options) := by
  have hnodes : Build.Returns (g.nodes.forM (l.lowerNode (l.context g options))) := by
    refine Build.Returns.forM fun n hn => ?_
    obtain ⟨i, hi⟩ := List.mem_iff_getElem?.1 hn
    exact returns_lowerNode hregistry (BuildContext.provides hg hshapes hi)
  have hrun := hnodes .empty
  rw [lower]
  split
  · next fault s hfault =>
    rw [Build.runFrom, hfault] at hrun
    exact hrun.error
  · split
    · exact returns_fail _
    · exact returns_ok _

theorem returns_probe (hregistry : l.registry = .standard) (hg : g.Consistent)
    (hshapes : ∀ n ∈ g.nodes, n.ShapeConsistent) {i : Nat} (hi : i < g.size) :
    Returns (l.probe g i) := by
  have hn : g.nodes[i]? = some g.nodes[i] := List.getElem?_eq_getElem hi
  have hprovides : (l.queryContext g g.nodes[i]).Provides g.nodes[i] :=
    BuildContext.provides hg hshapes hn
  exact returns_ofOption_bind hn (returns_lowerNode hregistry hprovides .empty)

/-- The support of a node has an answer when lowering it on its own returns. -/
theorem exists_isSupported {i : Nat} (h : Returns (l.probe g i)) :
    ∃ verdict, l.isSupported g i = .ok verdict := by
  rcases returns_iff.1 h with ⟨⟨⟩, hprobe⟩ | ⟨cause, hprobe⟩
  · exact ⟨true, by rw [isSupported, hprobe]⟩
  · exact ⟨false, by rw [isSupported, hprobe]⟩

/-- Lowering an assembled graph returns, and the support of each of its nodes has an answer, whatever
the configuration, the device, the overlay and the options are. It is enough that every node declares
an output, and that the outputs of splits have the rank of what is split. -/
theorem lower_returns {requests : List (String × NodeRequest)}
    (hregistry : l.registry = .standard) (hassembled : Graph.ofRequests requests = .ok g)
    (hshapes : ∀ n ∈ g.nodes, n.ShapeConsistent) (options : BuildOptions) :
    ((∃ lowered, l.lower g options = .ok lowered) ∨
        ∃ cause, l.lower g options = .error (.error cause)) ∧
      ∀ i < g.size,
        (l.probe g i = .ok () ∨ ∃ cause, l.probe g i = .error (.error cause)) ∧
          ∃ verdict, l.isSupported g i = .ok verdict := by
  have hg := Graph.consistent_of_ofRequests hassembled
  refine ⟨returns_iff.1 (returns_lower hregistry hg hshapes options), fun i hi => ?_⟩
  have hprobe := returns_probe hregistry hg hshapes hi
  refine ⟨?_, exists_isSupported hprobe⟩
  rcases returns_iff.1 hprobe with ⟨⟨⟩, hok⟩ | hcause
  · exact .inl hok
  · exact .inr hcause

end Lowerer

/-- Two halves of a matrix, split along its last axis, and the product of one with the transpose of
the other. -/
def Graph.halvesRequests : List (String × NodeRequest) :=
  [("x", .parameter (.ofSizes .f32 [2, 4])), ("a", .constant (.ofIntegerList [-1])),
    ("h", .operation (.single Opset.split) [⟨0, 0⟩, ⟨1, 0⟩]
      [.ofSizes .f32 [2, 2], .ofSizes .f32 [2, 2]] .empty),
    ("c", .operation (.single Opset.matMul) [⟨2, 0⟩, ⟨2, 1⟩] [.ofSizes .f32 [2, 2]]
      (NameMap.empty.insert "transpose_b" (.bool true))),
    ("r", .result ⟨3, 0⟩)]

/-- A lowerer without any tuning, which moves all transposes that can be moved. -/
def Lowerer.untuned : Lowerer := { plain with config := { matmul := ⟨0, 0, 0⟩ } }

/-- Without any tuning, the halves are lowered with a permutation in front of their product. -/
theorem Lowerer.lower_returns_halves : ∃ g lowered,
    Graph.ofRequests Graph.halvesRequests = .ok g ∧ (∀ n ∈ g.nodes, n.ShapeConsistent) ∧
      untuned.lower g {} = .ok lowered ∧
      (∃ p ∈ lowered.topology.primitives, p.payload = .permute [1, 0]) ∧
      ∀ i < g.size, ∃ verdict, untuned.isSupported g i = .ok verdict := by
  have htest : ((Graph.ofRequests Graph.halvesRequests).toOption.any fun g =>
      (untuned.lower g {}).toOption.any fun lowered => decide ((∀ n ∈ g.nodes, n.ShapeConsistent) ∧
        ∃ p ∈ lowered.topology.primitives, p.payload = .permute [1, 0])) = true := by
    decide +kernel
  obtain ⟨g, hg, htest⟩ := exists_of_any_toOption htest
  obtain ⟨lowered, hlower, htest⟩ := exists_of_any_toOption htest
  obtain ⟨hshapes, hpermutes⟩ := of_decide_eq_true htest
  obtain ⟨-, hsupported⟩ := lower_returns (l := untuned) rfl hg hshapes {}
  exact ⟨g, lowered, hg, hshapes, hlower, hpermutes, fun i hi => (hsupported i hi).2⟩

end TensorLowering
