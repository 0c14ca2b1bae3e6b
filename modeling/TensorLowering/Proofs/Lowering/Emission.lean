import TensorLowering.Lowering.Registry
import TensorLowering.Proofs.Lowering.Build

/-!
# What nodes become

`Emits` says which primitives a node becomes under a rule, given the sources that its inputs were
resolved to. Nearly every rule emits one primitive with the identity of the node, and `Becomes` says
what that primitive computes and reads; products and splits emit several.

## Implementation notes

Neither relation looks at the state of the build, so that lowering a node in a build and asking for
its support can be compared: both emit by the same relation, from different sources.

## Main statements

* `Emits.readsBack`: what a node becomes reads its sources and what was emitted for it before.
-/

namespace TensorLowering

/-- The rules by name. -/
inductive RuleName where
  | parameter
  | constant
  | result
  | eltwise
  | erf
  | reduction
  | split
  | transpose
  | reshape
  | concat
  | matMul
  | fullyConnected
  | fullyConnectedCompressed
  | kernel (k : KernelDescriptor)
  deriving DecidableEq

namespace RuleName

/-- The rule with a name. -/
def rule : RuleName → Rule
  | parameter => Rule.parameter
  | constant => Rule.constant
  | result => Rule.result
  | eltwise => Rule.eltwise
  | erf => Rule.erf
  | reduction => Rule.reduction
  | split => Rule.split
  | transpose => Rule.transpose
  | reshape => Rule.reshape
  | concat => Rule.concat
  | matMul => Rule.matMul
  | fullyConnected => Rule.fullyConnected
  | fullyConnectedCompressed => Rule.fullyConnectedCompressed
  | kernel k => Rule.kernel k

/-- The names of the rules in the standard registry, by kind. -/
def table : List (OpKind × RuleName) :=
  Opset.elementwise.map (·, eltwise) ++
    [(Opset.erf, erf), (Opset.reduction, reduction), (Opset.split, split),
      (Opset.variadicSplit, split), (Opset.transpose, transpose), (Opset.reshape, reshape),
      (Opset.concat, concat), (Opset.parameter, parameter), (Opset.constant, constant),
      (Opset.result, result), (Opset.matMul, matMul), (Opset.fullyConnected, fullyConnected),
      (Opset.fullyConnectedCompressed, fullyConnectedCompressed)]

theorem entries_standard :
    Registry.standard.entries = table.map fun entry => (entry.1, entry.2.rule) := rfl

/-- The standard registry has the rules that the table names. -/
theorem rule?_standard (kind : OpKind) :
    Registry.standard.rule? kind = (table.lookup kind).map rule := by
  rw [Registry.rule?, entries_standard]
  induction table with
  | nil => rfl
  | cons entry rest ih =>
      rw [List.map_cons, List.lookup_cons, List.lookup_cons]
      split
      · rfl
      · exact ih

end RuleName

namespace Graph

/-- An input of a node reads a constant that holds integers. -/
def ReadsIntegers (g : Graph) (n : Node) (input : Nat) (values : List Int64) : Prop :=
  ∃ producer literal, g.producer? n input = some producer ∧ producer.isA Opset.constant = true ∧
    producer.value = some literal ∧ literal.integers? = some values

end Graph

/-- The positions of axes, all of which are in range. -/
def AxisPositions (rank : Nat) (axes : List Int64) (positions : List Nat) : Prop :=
  List.Forall₂ (fun axis position => axisPosition? axis.toInt rank = some position) axes positions

/-- The order of a transpose. -/
inductive TransposeOrder (g : Graph) (n : Node) (rank : Nat) : List Nat → Prop where
  | given {values : List Int64} {order : List Nat} (arity : n.inputs.length = 2)
      (reads : g.ReadsIntegers n 1 values) (positions : AxisPositions rank values order) :
      TransposeOrder g n rank order
  | reversed (arity : n.inputs.length = 1) : TransposeOrder g n rank (List.range rank).reverse

/-- What the one primitive of a node computes, and what it reads. -/
inductive Becomes (ctx : BuildContext) (n : Node) (sources : List Source) :
    RuleName → Payload → List Source → Prop where
  | parameter {type : TensorType} (arity : n.inputs = []) (output : n.outputs[0]? = some type) :
      Becomes ctx n sources .parameter (.inputLayout type) []
  | constant {literal : Literal} (arity : n.inputs = []) (value : n.value = some literal) :
      Becomes ctx n sources .constant (.data literal) []
  | result {type : TensorType} (arity : n.inputs.length = 1) (output : n.outputs[0]? = some type) :
      Becomes ctx n sources .result (.reorder type.element) sources
  | eltwise {kind : OpKind} {mode : EltwiseMode} {type : TensorType} (arity : n.inputs.length = 2)
      (known : n.kind? = some kind) (named : EltwiseMode.ofName? kind.name = some mode)
      (output : n.outputs[0]? = some type) :
      Becomes ctx n sources .eltwise (.eltwise mode type.element) sources
  | erf (arity : n.inputs.length = 1) : Becomes ctx n sources .erf (.activation .erf) sources
  | reduction {kind : OpKind} {mode : ReduceMode} {type : TensorType} {values : List Int64}
      {axes : List Nat} (arity : n.inputs.length = 2) (known : n.kind? = some kind)
      (named : ReduceMode.ofName? kind.name = some mode) (input : n.inputTypes[0]? = some type)
      (reads : ctx.graph.ReadsIntegers n 1 values)
      (positions : AxisPositions type.shape.rank values axes) :
      Becomes ctx n sources .reduction
        (.reduce mode (axisSet axes) (n.switch "keep_dims" false)) (sources.take 1)
  | transpose {type : TensorType} {order : List Nat} (input : n.inputTypes[0]? = some type)
      (ordered : TransposeOrder ctx.graph n type.shape.rank order)
      (length : order.length = type.shape.rank)
      (distinct : Rule.firstRepeated (List.replicate type.shape.rank false) order = .ok none) :
      Becomes ctx n sources .transpose (.permute order) (sources.take 1)
  | reshape {type : TensorType} (arity : n.inputs.length = 2) (output : n.outputs[0]? = some type) :
      Becomes ctx n sources .reshape (.reshape type.shape.sizes?)
        (if type.shape.sizes?.isSome then sources.take 1 else sources)
  | concat {axis : Int64} {type : TensorType} {position : Nat} (arity : n.inputs ≠ [])
      (declared : n.int? "axis" = some axis) (output : n.outputs[0]? = some type)
      (located : axisPosition? axis.toInt type.shape.rank = some position) :
      Becomes ctx n sources .concat (.concatenation position) sources
  | fullyConnected {type : TensorType} (arity : n.inputs.length = 2)
      (weights : Rule.checkConstantPath ctx n 1 "weights" = .ok ())
      (output : n.outputs[0]? = some type) :
      Becomes ctx n sources .fullyConnected (.fullyConnected false false type.element) sources
  | fullyConnectedCompressed {type : TensorType} (arity : n.inputs.length = 3 ∨ n.inputs.length = 4)
      (weights : Rule.checkConstantPath ctx n 1 "weights" = .ok ())
      (scale : Rule.checkConstantPath ctx n 2 "decompression scale" = .ok ())
      (zeroPoint : 3 < n.inputs.length →
        Rule.checkConstantPath ctx n 3 "decompression zero point" = .ok ())
      (output : n.outputs[0]? = some type) :
      Becomes ctx n sources .fullyConnectedCompressed
        (.fullyConnected true (n.inputs.length = 4) type.element) sources
  | kernel {k : KernelDescriptor} {inputs : List Source} {output : TensorType} {sizes : List Nat}
      {options : String} {globalSizes localSizes : List Nat}
      (bound : Rule.boundInputs n k sources = .ok inputs)
      (written : Rule.boundOutput n k = .ok output)
      (static : output.shape.sizes? = some sizes)
      (defines : Rule.buildOptions n k = .ok options)
      (globalWork : Rule.workSizes (.ofSizes sizes) k.globalWorkSize = .ok globalSizes)
      (localWork : Rule.workSizes (.ofSizes sizes) k.localWorkSize = .ok localSizes) :
      Becomes ctx n sources (.kernel k)
        (.customKernel ⟨k.entryPoint, k.source, options, globalSizes, localSizes, output⟩) inputs

/-- An operand of a product: as it is, or behind a permutation that swaps its last two axes. -/
inductive Operand (n : Node) (side : String) (shape : Shape) (source : Source) :
    Bool → List Primitive → Source → Prop where
  | stays : Operand n side shape source false [] source
  | moves {order : List Nat} (swap : swapLastTwo? shape.rank = some order) :
      Operand n side shape source true [.new (n.name ++ side) (.permute order) [source]]
        ⟨n.name ++ side, 0⟩

/-- The reshape behind a product: under the legacy inference, when there are few axes. -/
inductive ProductTail (newShapeInference : Bool) (identity : String) (type : TensorType) :
    List Primitive → Prop where
  | none (regime : newShapeInference = true) : ProductTail newShapeInference identity type []
  | native {sizes : List Nat} (regime : newShapeInference = false)
      (static : type.shape.sizes? = some sizes) (rank : Rule.nativeProductRank ≤ sizes.length) :
      ProductTail newShapeInference identity type []
  | reshape {sizes : List Nat} (regime : newShapeInference = false)
      (static : type.shape.sizes? = some sizes) (rank : sizes.length < Rule.nativeProductRank) :
      ProductTail newShapeInference identity type
        [.new (identity ++ "_out_reshape") (.reshape (some sizes)) [⟨identity, 0⟩]]

/-- Whether the operands of a product are transposed in front of it. -/
def BuildContext.moves (ctx : BuildContext) (n : Node) (a b : TensorType) : Bool :=
  ctx.config.matmul.movesTransposes a.shape b.shape (n.switch "transpose_a" false)
    (n.switch "transpose_b" false) a.element ctx.device.integerProducts

/-- A shape without symbols has sizes. -/
theorem Shape.exists_sizes_of_isDynamic_eq_false {shape : Shape} (h : shape.isDynamic = false) :
    ∃ sizes, shape.sizes? = some sizes := by
  rcases shape with ⟨extents⟩
  simp only [Shape.isDynamic, List.any_eq_false] at h
  refine ⟨extents.filterMap Extent.size?, Outcome.mapM_eq_some_iff.2 ?_⟩
  induction extents with
  | nil => exact .nil
  | cons e rest ih =>
      obtain ⟨he, hrest⟩ := List.forall_mem_cons.1 h
      cases e with
      | fixed size => exact .cons rfl (ih hrest)
      | symbolic symbol => simp [Extent.isFixed] at he

/-- Only operands without symbols are transposed in front of a product. -/
theorem BuildContext.exists_sizes_of_moves {ctx : BuildContext} {n : Node} {a b : TensorType}
    (h : ctx.moves n a b = true) :
    (∃ sizes, a.shape.sizes? = some sizes) ∧ ∃ sizes, b.shape.sizes? = some sizes := by
  simp only [moves, MatMulTuning.movesTransposes, List.all_cons, Bool.and_eq_true] at h
  obtain ⟨⟨⟨-, ⟨ha, -⟩, ⟨hb, -⟩, -⟩, -⟩, -⟩ := h
  exact ⟨Shape.exists_sizes_of_isDynamic_eq_false (Bool.not_eq_true' _ ▸ ha),
    Shape.exists_sizes_of_isDynamic_eq_false (Bool.not_eq_true' _ ▸ hb)⟩

/-- The settings of the product of a node. -/
def Node.productSpec (n : Node) (moves : Bool) (a b type : TensorType) : GemmSpec :=
  { element := type.element
    transposeA := n.switch "transpose_a" false && !moves
    transposeB := n.switch "transpose_b" false && !moves
    alpha := .one
    beta := .zero
    inputRank := a.shape.rank
    weightRank := b.shape.rank }

/-- The crops of the outputs from number `output` on, which start at `offset`. -/
inductive Crops (identity : String) (inputs : List Source) (axis : Nat) :
    Nat → Nat → List TensorType → List Primitive → Prop where
  | nil (output offset : Nat) : Crops identity inputs axis output offset [] []
  | cons {output offset length : Nat} {type : TensorType} {types : List TensorType}
      {sizes : List Nat} {ps : List Primitive} (static : type.shape.sizes? = some sizes)
      (extent : sizes[axis]? = some length)
      (rest : Crops identity inputs axis (output + 1) (wrap (offset + length)) types ps) :
      Crops identity inputs axis output offset (type :: types)
        (.new (identity ++ outputSuffix output) (.crop axis offset length) inputs :: ps)

/-- The primitives that a node with an identity becomes under a rule, in order. -/
inductive Emits (ctx : BuildContext) (n : Node) (identity : String) (sources : List Source) :
    RuleName → List Primitive → Prop where
  | one {r : RuleName} {payload : Payload} {inputs : List Source}
      (becomes : Becomes ctx n sources r payload inputs) :
      Emits ctx n identity sources r [.new identity payload inputs]
  | matMul {a b type : TensorType} {sourceA sourceB inputA inputB : Source}
      {psA psB tail : List Primitive} (arity : n.inputs.length = 2)
      (readsA : sources[0]? = some sourceA) (readsB : sources[1]? = some sourceB)
      (typeA : n.inputTypes[0]? = some a) (typeB : n.inputTypes[1]? = some b)
      (output : n.outputs[0]? = some type)
      (operandA : Operand n "/transpose_a" a.shape sourceA
        (ctx.moves n a b && n.switch "transpose_a" false) psA inputA)
      (operandB : Operand n "/transpose_b" b.shape sourceB
        (ctx.moves n a b && n.switch "transpose_b" false) psB inputB)
      (behind : ProductTail ctx.newShapeInference identity type tail) :
      Emits ctx n identity sources .matMul (psA ++ psB ++
        [.new identity (.gemm (n.productSpec (ctx.moves n a b) a b type)) [inputA, inputB]] ++ tail)
  | split {type : TensorType} {axis : Int64} {values : List Int64} {position : Nat}
      {ps : List Primitive} (arity : n.inputs.length = if n.isA Opset.variadicSplit then 3 else 2)
      (input : n.inputTypes[0]? = some type) (reads : ctx.graph.ReadsIntegers n 1 values)
      (first : values.head? = some axis)
      (located : axisPosition? axis.toInt type.shape.rank = some position)
      (crops : Crops identity (sources.take 1) position 0 0 n.outputs ps) :
      Emits ctx n identity sources .split ps

namespace Crops

variable {identity : String} {inputs : List Source} {axis output offset : Nat}
  {types : List TensorType} {ps : List Primitive}

/-- There is one crop for each output, and its number is at the end of its identifier. -/
theorem getElem?_eq_some (h : Crops identity inputs axis output offset types ps) {k : Nat}
    {p : Primitive} (hp : ps[k]? = some p) :
    p.id = identity ++ outputSuffix (output + k) ∧ p.inputs = inputs ∧
      ∃ start length, p.payload = .crop axis start length := by
  induction h generalizing k with
  | nil => simp at hp
  | @cons output offset length type types sizes ps _ _ _ ih =>
      cases k with
      | zero =>
          obtain rfl := Option.some.inj hp
          exact ⟨rfl, rfl, offset, length, rfl⟩
      | succ k =>
          have := ih hp
          rwa [Nat.add_assoc, Nat.add_comm 1 k] at this

theorem length_eq (h : Crops identity inputs axis output offset types ps) :
    ps.length = types.length := by
  induction h with
  | nil => rfl
  | cons _ _ _ ih => rw [List.length_cons, List.length_cons, ih]

end Crops

namespace Becomes

variable {ctx : BuildContext} {n : Node} {sources inputs : List Source} {r : RuleName}
  {payload : Payload}

theorem boundInputs_subset {k : KernelDescriptor} (h : Rule.boundInputs n k sources = .ok inputs) :
    inputs ⊆ sources := by
  rw [Rule.boundInputs] at h
  split at h
  · rw [Outcome.pure_eq_ok_iff] at h
    exact h ▸ List.Subset.refl _
  · intro s hs
    obtain ⟨i, hi⟩ := List.mem_iff_getElem?.1 hs
    obtain ⟨hlt, rfl⟩ := List.getElem?_eq_some_iff.1 hi
    have hall := Outcome.mapM_eq_ok_iff.1 h
    have hread := hall.get (hall.length_eq ▸ hlt) hlt
    split at hread
    · next hsource =>
      obtain rfl := Outcome.pure_eq_ok_iff.1 hread
      exact List.mem_of_getElem? hsource
    · simp [Node.failParameter, Outcome.bind_eq_ok_iff] at hread

/-- The one primitive of a node reads some of the sources of the node. -/
theorem inputs_subset (h : Becomes ctx n sources r payload inputs) : inputs ⊆ sources := by
  cases h with
  | parameter => exact List.nil_subset _
  | constant => exact List.nil_subset _
  | reduction => exact List.take_subset _ _
  | transpose => exact List.take_subset _ _
  | reshape =>
      split
      · exact List.take_subset _ _
      · exact List.Subset.refl _
  | kernel bound => exact boundInputs_subset bound
  | _ => exact List.Subset.refl _

end Becomes

/-- A source that a node may read behind the primitives emitted for it so far: one of its own, or
the first output of one of them. -/
def Available (sources : List Source) (ps : List Primitive) (s : Source) : Prop :=
  s ∈ sources ∨ s.output = 0 ∧ s.id ∈ ps.map Primitive.id

theorem Available.append {sources : List Source} {ps : List Primitive} {s : Source}
    (h : Available sources ps s) (qs : List Primitive) : Available sources (ps ++ qs) s := by
  refine h.imp_right fun ⟨houtput, hid⟩ => ⟨houtput, ?_⟩
  rw [List.map_append]
  exact List.mem_append_left _ hid

/-- Every primitive of a list reads what is available in front of it. -/
def ReadsBack (sources : List Source) (ps : List Primitive) : Prop :=
  ∀ i p, ps[i]? = some p → ∀ s ∈ p.inputs, Available sources (ps.take i) s

namespace ReadsBack

variable {sources : List Source} {ps : List Primitive}

theorem nil : ReadsBack sources [] := by
  intro i p hp
  simp at hp

theorem append_singleton (h : ReadsBack sources ps) {p : Primitive}
    (hp : ∀ s ∈ p.inputs, Available sources ps s) : ReadsBack sources (ps ++ [p]) := by
  intro i q hq
  rcases getElem?_append_singleton_cases hq with ⟨hlt, hq⟩ | ⟨rfl, rfl⟩
  · rw [List.take_append_of_le_length (Nat.le_of_lt hlt)]
    exact h i q hq
  · rw [List.take_left]
    exact hp

/-- Primitives that only read the sources. -/
theorem of_inputs_subset (h : ∀ p ∈ ps, p.inputs ⊆ sources) : ReadsBack sources ps := by
  intro i p hp s hs
  exact .inl (h p (List.mem_of_getElem? hp) hs)

end ReadsBack

namespace Operand

variable {n : Node} {side : String} {shape : Shape} {source input : Source} {moved : Bool}
  {ps : List Primitive}

/-- The product reads the operand itself, or the permutation that was emitted for it. -/
theorem eq_nil_or_singleton (h : Operand n side shape source moved ps input) :
    ps = [] ∧ input = source ∨
      ∃ p, ps = [p] ∧ p.id = n.name ++ side ∧ p.inputs = [source] ∧
        input = ⟨n.name ++ side, 0⟩ := by
  cases h with
  | stays => exact .inl ⟨rfl, rfl⟩
  | moves => exact .inr ⟨_, rfl, rfl, rfl, rfl⟩

/-- An operand that reads what is available leaves its value available. -/
theorem readsBack (h : Operand n side shape source moved ps input) {sources : List Source}
    {before : List Primitive} (hbefore : ReadsBack sources before) (hsource : source ∈ sources) :
    ReadsBack sources (before ++ ps) ∧ Available sources (before ++ ps) input := by
  rcases h.eq_nil_or_singleton with ⟨rfl, rfl⟩ | ⟨p, rfl, hid, hinputs, rfl⟩
  · rw [List.append_nil]
    exact ⟨hbefore, .inl hsource⟩
  · constructor
    · apply hbefore.append_singleton
      intro s hs
      rw [hinputs, List.mem_singleton] at hs
      exact .inl (hs ▸ hsource)
    · exact .inr ⟨rfl, by simp [hid]⟩

end Operand

theorem ProductTail.eq_nil_or_singleton {newShapeInference : Bool} {identity : String}
    {type : TensorType} {ps : List Primitive} (h : ProductTail newShapeInference identity type ps) :
    ps = [] ∨
      ∃ p, ps = [p] ∧ p.id = identity ++ "_out_reshape" ∧ p.inputs = [⟨identity, 0⟩] := by
  cases h with
  | none => exact .inl rfl
  | native => exact .inl rfl
  | reshape => exact .inr ⟨_, rfl, rfl, rfl⟩

/-- What a node becomes reads the sources of the node, and the first outputs of what was emitted for
it before. -/
theorem Emits.readsBack {ctx : BuildContext} {n : Node} {identity : String} {sources : List Source}
    {r : RuleName} {ps : List Primitive} (h : Emits ctx n identity sources r ps) :
    ReadsBack sources ps := by
  cases h with
  | one becomes =>
      apply ReadsBack.of_inputs_subset
      intro p hp
      rw [List.mem_singleton.1 hp]
      exact becomes.inputs_subset
  | split _ _ _ _ _ crops =>
      apply ReadsBack.of_inputs_subset
      intro p hp
      obtain ⟨k, hk⟩ := List.mem_iff_getElem?.1 hp
      obtain ⟨-, hinputs, -⟩ := crops.getElem?_eq_some hk
      rw [hinputs]
      exact List.take_subset _ _
  | @matMul a b type _ _ inputA inputB psA psB _ _ readsA readsB _ _ _ operandA operandB behind =>
      obtain ⟨hA, havailableA⟩ := operandA.readsBack .nil (List.mem_of_getElem? readsA)
      obtain ⟨hB, havailableB⟩ := operandB.readsBack hA (List.mem_of_getElem? readsB)
      let product := Primitive.new identity (.gemm (n.productSpec (ctx.moves n a b) a b type))
          [inputA, inputB]
      have hproduct : ReadsBack sources ([] ++ psA ++ psB ++ [product]) := by
        apply hB.append_singleton
        intro s hs
        rcases List.mem_pair.1 hs with rfl | rfl
        · exact havailableA.append _
        · exact havailableB
      rcases behind.eq_nil_or_singleton with rfl | ⟨p, rfl, -, hinputs⟩
      · rw [List.append_nil]
        exact hproduct
      · apply hproduct.append_singleton
        intro s hs
        rw [hinputs, List.mem_singleton] at hs
        exact .inr ⟨by rw [hs], by simp [hs, product]⟩

end TensorLowering
