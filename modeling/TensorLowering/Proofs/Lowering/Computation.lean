import TensorLowering.Proofs.Evaluation
import TensorLowering.Proofs.Lowering.Opset
import TensorLowering.Proofs.Program.Valuation
import TensorLowering.Proofs.Tensor.Product

/-!
# What the primitives of a node compute

When a node is evaluated on values of its types, the primitives that it becomes compute the values
of its outputs from the same values.
-/

namespace TensorLowering

open Numeric Evaluation

/-- A node that is evaluated on values of its types to values of its types. What a rule reads from a
constant is what evaluation finds there. -/
structure Graph.Evaluates (g : Graph) (erf : ErrorFunction) (inputs : NameMap Tensor) (n : Node)
    (kind : OpKind) (args outputs : List Tensor) : Prop where
  known : n.kind? = some kind
  arity : args.length = n.inputs.length
  computes : (⟨n, kind.name, args⟩ : Call).outputs erf inputs = .ok outputs
  argument : ∀ (a : Nat) (arg : Tensor) (type : TensorType), args[a]? = some arg →
    n.inputTypes[a]? = some type → arg.matchesType type = true
  output : ∀ (k : Nat) (t : Tensor) (type : TensorType), outputs[k]? = some t →
    n.outputs[k]? = some type → t.matchesType type = true
  integers : ∀ values, g.ReadsIntegers n 1 values →
    ∃ t, args[1]? = some t ∧ t.integers? = some values

/-- A word holds the number of elements of the type, as far as its sizes are known. -/
def TensorType.countFits (type : TensorType) : Bool :=
  type.shape.sizes?.all fun sizes => volume sizes < UInt64.size

/-- A word holds the number of elements of each operand that a product is told to transpose. -/
structure Node.TransposesFit (n : Node) : Prop where
  left : n.switch "transpose_a" false = true → ∀ type ∈ n.inputTypes[0]?, type.countFits = true
  right : n.switch "transpose_b" false = true → ∀ type ∈ n.inputTypes[1]?, type.countFits = true

/-- The products of the graph transpose operands that words can count the elements of. -/
def Graph.TransposesFit (g : Graph) : Prop :=
  ∀ n ∈ g.nodes, n.isA Opset.matMul = true → n.TransposesFit

/-- An operand that is moved is well formed: its type has sizes then, and a word counts what they
stand for. -/
theorem Tensor.wellFormed_of_countFits {t : Tensor} {type : TensorType} {moves flag : Bool}
    (h : t.matchesType type = true) (hstatic : moves = true → ∃ sizes, type.shape.sizes? = some sizes)
    (hfit : flag = true → type.countFits = true) (hmoved : (moves && flag) = true) :
    t.WellFormed := by
  obtain ⟨hmoves, hflag⟩ := Bool.and_eq_true_iff.1 hmoved
  obtain ⟨sizes, hsizes⟩ := hstatic hmoves
  have hcount := hfit hflag
  rw [TensorType.countFits, hsizes, Option.all_some, decide_eq_true_eq] at hcount
  rw [wellFormed_iff, sizes_eq_of_matchesType h hsizes]
  exact hcount

theorem Step.argument_eq_ok_iff {s : Step} {args : List Tensor} {index : Nat} {t : Tensor} :
    s.argument args index = .ok t ↔ args[index]? = some t :=
  Outcome.ofOptionOr_eq_ok_iff

theorem Reads.take {v : NameMap Tensor} {sources : List Source} {args : List Tensor}
    (h : Reads v sources args) (k : Nat) : Reads v (sources.take k) (args.take k) :=
  List.forall₂_take k h

theorem AxisPositions.unique {rank : Nat} {axes : List Int64} {xs ys : List Nat}
    (hx : AxisPositions rank axes xs) (hy : AxisPositions rank axes ys) : xs = ys := by
  have hx := Outcome.mapM_eq_some_iff.2 hx
  have hy := Outcome.mapM_eq_some_iff.2 hy
  exact Option.some.inj (hx.symm.trans hy)

/-- A transpose is lowered to the order in which it is evaluated. -/
theorem TransposeOrder.eq_of_transposes {g : Graph} {erf : ErrorFunction}
    {inputs : NameMap Tensor} {n : Node}
    {kind : OpKind} {args outputs : List Tensor} {rank : Nat} {order evaluated : List Nat}
    (h : TransposeOrder g n rank order) (he : g.Evaluates erf inputs n kind args outputs)
    (htransposes : Call.Transposes args rank evaluated) : evaluated = order := by
  cases h with
  | given arity constant positions =>
      obtain ⟨b, hb, hvalues⟩ := he.integers _ constant
      cases htransposes with
      | given second integers located =>
          obtain rfl := Option.some.inj (hb.symm.trans second)
          obtain rfl := Option.some.inj (hvalues.symm.trans integers)
          exact AxisPositions.unique located positions
      | reversed alone => simp [hb] at alone
  | reversed arity =>
      have hnone : args[1]? = none :=
        List.getElem?_eq_none (Nat.le_of_eq (he.arity.trans arity))
      cases htransposes with
      | given second => simp [hnone] at second
      | reversed => rfl

/-- Joining tensors changes one extent only. -/
theorem Tensor.rank_of_concat {inputs : List Tensor} {axis : Nat} {first t : Tensor}
    (hfirst : inputs[0]? = some first) (h : Tensor.concat inputs axis = .ok t) :
    t.rank = first.rank := by
  rw [← List.head?_eq_getElem?] at hfirst
  simp only [concat, hfirst] at h
  split at h
  · simp [failExecution, Outcome.bind_eq_ok_iff] at h
  · obtain ⟨-, -, h⟩ := Outcome.bind_eq_ok_iff.1 h
    obtain ⟨extents, -, h⟩ := Outcome.bind_eq_ok_iff.1 h
    split at h
    all_goals
      obtain ⟨parts, -, h⟩ := Outcome.bind_eq_ok_iff.1 h
      obtain ⟨joined, -, h⟩ := Outcome.bind_eq_ok_iff.1 h
      rw [rank, (new_eq_ok_iff.1 h).1, List.length_set]
      rfl

namespace Becomes

variable {ctx : BuildContext} {n : Node} {sources reads : List Source} {r : RuleName}
  {payload : Payload} {erf : ErrorFunction} {inputs v : NameMap Tensor} {kind : OpKind}
  {args outputs : List Tensor} {p : Primitive}

/-- The one primitive of a node computes the one output of the node. -/
theorem computes (h : Becomes ctx n sources r payload reads) (hkind : kind.name ∈ r.kindNames)
    (he : ctx.graph.Evaluates erf inputs n kind args outputs) (hreads : Reads v sources args)
    (hpayload : p.payload = payload) (hname : p.originName = n.name) :
    ∃ t args', outputs = [t] ∧ Reads v reads args' ∧ p.Computes erf inputs args' t := by
  have hcomputes := he.computes
  have hdetached : p.detached.payload = payload := hpayload
  cases h with
  | @parameter type arity output =>
      rw [List.mem_singleton.1 hkind] at hcomputes
      obtain ⟨t, ht, rfl⟩ := Call.outputs_parameter_eq_ok_iff.1 hcomputes
      exact ⟨t, [], rfl, .nil, .input hpayload (hname ▸ ht) (he.output 0 t type rfl output)⟩
  | constant arity value =>
      rw [List.mem_singleton.1 hkind] at hcomputes
      obtain ⟨literal, t, hvalue, ht, rfl⟩ := Call.outputs_constant_eq_ok_iff.1 hcomputes
      obtain rfl := Option.some.inj (value.symm.trans hvalue)
      exact ⟨t, [], rfl, .nil, .constant hpayload ht⟩
  | @result type arity output =>
      rw [List.mem_singleton.1 hkind] at hcomputes
      obtain ⟨t, ht, rfl⟩ := Call.outputs_result_eq_ok_iff.1 hcomputes
      have helement := (Tensor.matchesType_iff.1 (he.output 0 t type rfl output)).2.2
      refine ⟨t, args, rfl, hreads, .work ?_⟩
      simp only [Step.compute, hdetached, Outcome.bind_eq_ok_iff, Step.argument_eq_ok_iff]
      exact ⟨t, ht, helement ▸ t.convert_self⟩
  | eltwise arity known named output =>
      obtain rfl := Option.some.inj (known.symm.trans he.known)
      obtain ⟨a, b, t, ha, hb, ht, rfl⟩ := (Call.outputs_eltwise_eq_ok_iff named).1 hcomputes
      refine ⟨t, args, rfl, hreads, .work ?_⟩
      simp only [Step.compute, hdetached, Outcome.bind_eq_ok_iff, Step.argument_eq_ok_iff]
      exact ⟨a, ha, b, hb, ht⟩
  | erf arity =>
      rw [List.mem_singleton.1 hkind] at hcomputes
      obtain ⟨a, t, ha, ht, rfl⟩ := Call.outputs_erf_eq_ok_iff.1 hcomputes
      refine ⟨t, args, rfl, hreads, .work ?_⟩
      simp only [Step.compute, hdetached, Outcome.bind_eq_ok_iff, Step.argument_eq_ok_iff]
      exact ⟨a, ha, ht⟩
  | @reduction other mode type values axes arity known named input constant positions =>
      obtain rfl := Option.some.inj (known.symm.trans he.known)
      obtain ⟨a, b, values', positions', t, ha, hb, hvalues, hpositions, ht, rfl⟩ :=
        (Call.outputs_reduction_eq_ok_iff named).1 hcomputes
      obtain ⟨b', hb', hvalues'⟩ := he.integers _ constant
      obtain rfl := Option.some.inj (hb.symm.trans hb')
      obtain rfl := Option.some.inj (hvalues.symm.trans hvalues')
      have hrank := (Tensor.matchesType_iff.1 (he.argument 0 a type ha input)).1
      obtain rfl := AxisPositions.unique positions (hrank ▸ hpositions)
      refine ⟨t, args.take 1, rfl, hreads.take 1, .work ?_⟩
      simp only [Step.compute, hdetached, Outcome.bind_eq_ok_iff, Step.argument_eq_ok_iff]
      exact ⟨a, by rw [List.getElem?_take_of_lt Nat.one_pos, ha], ht⟩
  | @transpose type order input ordered length distinct =>
      rw [List.mem_singleton.1 hkind] at hcomputes
      obtain ⟨a, order', t, ha, horder, ht, rfl⟩ := Call.outputs_transpose_eq_ok_iff.1 hcomputes
      have hrank := (Tensor.matchesType_iff.1 (he.argument 0 a type ha input)).1
      obtain rfl := ordered.eq_of_transposes he (hrank ▸ horder)
      refine ⟨t, args.take 1, rfl, hreads.take 1, .work ?_⟩
      simp only [Step.compute, hdetached, Outcome.bind_eq_ok_iff, Step.argument_eq_ok_iff]
      exact ⟨a, by rw [List.getElem?_take_of_lt Nat.one_pos, ha], ht⟩
  | @reshape type arity output =>
      rw [List.mem_singleton.1 hkind] at hcomputes
      obtain ⟨a, type', sizes, t, ha, htype, hsizes, ht, rfl⟩ :=
        Call.outputs_reshape_eq_ok_iff.1 hcomputes
      obtain rfl := Option.some.inj (output.symm.trans htype)
      rw [hsizes, Option.isSome_some, if_pos rfl]
      refine ⟨t, args.take 1, rfl, hreads.take 1, .work ?_⟩
      simp only [Step.compute, hdetached, hsizes, Outcome.bind_eq_ok_iff, Step.argument_eq_ok_iff]
      exact ⟨a, by rw [List.getElem?_take_of_lt Nat.one_pos, ha], ht⟩
  | @concat axis type position arity declared output located =>
      rw [List.mem_singleton.1 hkind] at hcomputes
      obtain ⟨first, axis', position', t, hfirst, haxis, hposition, ht, rfl⟩ :=
        Call.outputs_concat_eq_ok_iff.1 hcomputes
      obtain rfl := Option.some.inj (declared.symm.trans haxis)
      have hrank := (Tensor.matchesType_iff.1 (he.output 0 t type rfl output)).1
      rw [← Tensor.rank_of_concat hfirst ht, hrank] at hposition
      obtain rfl := Option.some.inj (located.symm.trans hposition)
      refine ⟨t, args, rfl, hreads, .work ?_⟩
      simp only [Step.compute, hdetached]
      exact ht
  | fullyConnected arity weights output =>
      rw [List.mem_singleton.1 hkind] at hcomputes
      obtain ⟨a, w, t, ha, hw, ht, rfl⟩ := Call.outputs_fullyConnected_eq_ok_iff.1 hcomputes
      have hfirst := Step.argument_eq_ok_iff (s := p.detached).2 ha
      have hsecond := Step.argument_eq_ok_iff (s := p.detached).2 hw
      refine ⟨t, args, rfl, hreads, .work ?_⟩
      simp only [Step.compute, hdetached, hfirst, hsecond, Bool.false_eq_true, if_false]
      exact ht
  | fullyConnectedCompressed arity weights scale zeroPoint output =>
      rw [List.mem_singleton.1 hkind] at hcomputes
      obtain ⟨a, w, s, t, ha, hw, hs, ht, rfl⟩ :=
        Call.outputs_fullyConnectedCompressed_eq_ok_iff.1 hcomputes
      have hfirst := Step.argument_eq_ok_iff (s := p.detached).2 ha
      have hsecond := Step.argument_eq_ok_iff (s := p.detached).2 hw
      have hthird := Step.argument_eq_ok_iff (s := p.detached).2 hs
      refine ⟨t, args, rfl, hreads, .work ?_⟩
      simp only [Step.compute, hdetached, hfirst, hsecond, hthird, if_true]
      rcases arity with hthree | hfour
      · have hnone : args[3]? = none :=
          List.getElem?_eq_none (Nat.le_of_eq (he.arity.trans hthree))
        rw [hnone] at ht
        simp only [hthree, decide_eq_true_eq]
        exact ht
      · have hlt : 3 < args.length := by
          rw [he.arity, hfour]
          exact Nat.lt_succ_self 3
        have hsome := List.getElem?_eq_getElem hlt
        have hfourth := Step.argument_eq_ok_iff (s := p.detached).2 hsome
        rw [hsome] at ht
        simp only [hfour, decide_true, if_true, hfourth]
        exact ht
  | kernel => cases hkind

end Becomes

/-- Where the values of the outputs of a node stand: a split has one crop for each, and any other
node has one output, which its last primitive computes. -/
inductive Holds (v : NameMap Tensor) : RuleName → List Primitive → List Tensor → Prop where
  | crops {ps : List Primitive} {outputs : List Tensor}
      (values : List.Forall₂ (fun (p : Primitive) t => v.get? p.id = some t) ps outputs) :
      Holds v .split ps outputs
  | last {r : RuleName} {ps : List Primitive} {p : Primitive} {t : Tensor} (whole : r ≠ .split)
      (final : ps.getLast? = some p) (value : v.get? p.id = some t) : Holds v r ps [t]

section Emission

variable {ctx : BuildContext} {n : Node} {identity : String} {label : NodeLabel}
  {sources : List Source} {erf : ErrorFunction} {inputs v : NameMap Tensor} {kind : OpKind}
  {args outputs : List Tensor} {before : List Primitive}

theorem notMem_of_nodup {before ps : List Primitive} {p : Primitive}
    (h : ((before ++ p :: ps).map Primitive.id).Nodup) : p.id ∉ before.map Primitive.id := by
  intro hmem
  rw [List.map_append, List.map_cons] at h
  exact (List.nodup_append.1 h).2.2 _ hmem _ List.mem_cons_self rfl

theorem nodup_of_nodup_append {xs ys : List Primitive} (h : ((xs ++ ys).map Primitive.id).Nodup) :
    (xs.map Primitive.id).Nodup := by
  rw [List.map_append] at h
  exact (List.nodup_append.1 h).1

/-- An operand leaves a tensor for the product that is read as the same factor. -/
theorem Operand.exists_valued {side : String} {shape : Shape} {source input : Source}
    {moves flag : Bool} {ps : List Primitive}
    (h : Operand n side shape source (moves && flag) ps input) (hv : Valued erf inputs before v)
    (hnodup : ((before ++ ps.map (Primitive.labelled label identity)).map Primitive.id).Nodup)
    {arg : Tensor} (harg : v.get? source.id = some arg)
    (hwell : (moves && flag) = true → arg.WellFormed)
    {values : Array Binary32} (helements : arg.elements = .f32 values) (hrank : arg.rank = shape.rank) :
    ∃ v' arg', Valued erf inputs (before ++ ps.map (Primitive.labelled label identity)) v' ∧
      v.Extends v' ∧
      v'.get? input.id = some arg' ∧ arg'.rank = arg.rank ∧
      ∀ vector a, arg.factor? vector flag = some a →
        ∃ a', arg'.factor? vector (flag && !moves) = some a' ∧ a.Same a' := by
  generalize hmoved : (moves && flag) = moved at h
  cases h with
  | stays =>
      refine ⟨v, arg, by simpa using hv, .refl v, harg, rfl, ?_⟩
      intro vector a ha
      have hflag : (flag && !moves) = flag := by
        cases moves <;> cases flag <;> first | rfl | cases hmoved
      refine ⟨a, ?_, .refl a⟩
      rw [hflag]
      exact ha
  | @moves order swap =>
      rw [Bool.and_eq_true] at hmoved
      obtain ⟨rfl, rfl⟩ := hmoved
      obtain ⟨arg', hpermute, hrank', hfactor⟩ :=
        Tensor.exists_permute (hwell rfl) helements (hrank ▸ swap)
      let p := (Primitive.new (n.name ++ side) (.permute order) [source]).labelled label identity
      have hreads : Reads v p.inputs [arg] := .cons harg .nil
      have hcomputes : p.Computes erf inputs [arg] arg' := .work hpermute
      obtain ⟨v', hv', hextends, hget⟩ := hv.exists_snoc (notMem_of_nodup hnodup) hreads hcomputes
      exact ⟨v', arg', hv', hextends, hget, hrank', hfactor⟩

/-- The reshape behind a product passes the product on. -/
theorem ProductTail.exists_valued {newShapeInference : Bool} {type : TensorType}
    {product : Primitive} {tail : List Primitive}
    (h : ProductTail newShapeInference identity type tail) (hid : product.id = identity)
    (hv : Valued erf inputs (before ++ [product.labelled label identity]) v)
    (hnodup : ((before ++ [product.labelled label identity] ++
      tail.map (Primitive.labelled label identity)).map Primitive.id).Nodup)
    {t : Tensor} (ht : v.get? identity = some t) (hmatches : t.matchesType type = true) :
    ∃ v' p, Valued erf inputs (before ++ [product.labelled label identity] ++
        tail.map (Primitive.labelled label identity)) v' ∧
      v.Extends v' ∧ (product :: tail).getLast? = some p ∧ v'.get? p.id = some t := by
  cases h with
  | none => exact ⟨v, product, by simpa using hv, .refl v, rfl, hid ▸ ht⟩
  | native => exact ⟨v, product, by simpa using hv, .refl v, rfl, hid ▸ ht⟩
  | @reshape sizes regime static rank =>
      let p := Primitive.new (identity ++ "_out_reshape") (.reshape (some sizes)) [⟨identity, 0⟩]
      have hreads : Reads v (p.labelled label identity).inputs [t] := .cons ht .nil
      have hsizes : t.sizes = sizes := Tensor.sizes_eq_of_matchesType hmatches static
      have hreshape : t.reshape sizes = .ok t := by
        rw [← hsizes]
        exact t.reshape_self
      have hcomputes : (p.labelled label identity).Computes erf inputs [t] t := .work hreshape
      obtain ⟨v', hv', hextends, hget⟩ := hv.exists_snoc (notMem_of_nodup hnodup) hreads hcomputes
      exact ⟨v', p, hv', hextends, rfl, hget⟩

/-- The primitives of a product compute the product: operands that are moved are transposed in front
of it instead of in it. -/
theorem exists_valued_product {a b type : TensorType} {sourceA sourceB inputA inputB : Source}
    {psA psB tail : List Primitive} {moves : Bool}
    (operandA : Operand n "/transpose_a" a.shape sourceA
      (moves && n.switch "transpose_a" false) psA inputA)
    (operandB : Operand n "/transpose_b" b.shape sourceB
      (moves && n.switch "transpose_b" false) psB inputB)
    {newShapeInference : Bool} (behind : ProductTail newShapeInference identity type tail)
    (hv : Valued erf inputs before v) {product : Primitive}
    (hproduct : product = .new identity (.gemm (n.productSpec moves a b type)) [inputA, inputB])
    (hnodup : ((before ++ (psA ++ psB ++ [product] ++ tail).map
      (Primitive.labelled label identity)).map Primitive.id).Nodup)
    {x y t : Tensor} (hx : v.get? sourceA.id = some x) (hy : v.get? sourceB.id = some y)
    (hwellA : (moves && n.switch "transpose_a" false) = true → x.WellFormed)
    (hwellB : (moves && n.switch "transpose_b" false) = true → y.WellFormed)
    (hrankA : x.rank = a.shape.rank) (hrankB : y.rank = b.shape.rank)
    (hgemm : x.gemm y (Call.productSpec n x y) = .ok t) (hmatches : t.matchesType type = true) :
    ∃ v' p, Valued erf inputs (before ++ (psA ++ psB ++ [product] ++ tail).map
        (Primitive.labelled label identity)) v' ∧ v.Extends v' ∧
      (psA ++ psB ++ [product] ++ tail).getLast? = some p ∧ v'.get? p.id = some t := by
  obtain ⟨fa, fb, -, -, hfa, hfb, -⟩ := Tensor.gemm_eq_ok_iff.1 hgemm
  obtain ⟨floatsA, hfloatsA⟩ := Tensor.exists_floats_of_factor? hfa
  obtain ⟨floatsB, hfloatsB⟩ := Tensor.exists_floats_of_factor? hfb
  have hlist : before ++ (psA ++ psB ++ [product] ++ tail).map (Primitive.labelled label identity) =
      before ++ psA.map (Primitive.labelled label identity) ++
        psB.map (Primitive.labelled label identity) ++ [product.labelled label identity] ++
        tail.map (Primitive.labelled label identity) := by
    simp only [List.map_append, List.map_cons, List.map_nil, List.append_assoc]
  rw [hlist] at hnodup ⊢
  have hnodupP := nodup_of_nodup_append hnodup
  have hnodupB := nodup_of_nodup_append hnodupP
  have hnodupA := nodup_of_nodup_append hnodupB
  obtain ⟨v₁, argA, hv₁, hextends₁, hargA, hargRankA, hfactorA⟩ :=
    operandA.exists_valued hv hnodupA hx hwellA hfloatsA hrankA
  obtain ⟨v₂, argB, hv₂, hextends₂, hargB, hargRankB, hfactorB⟩ :=
    operandB.exists_valued hv₁ hnodupB (hextends₁ _ _ hy) hwellB hfloatsB hrankB
  have hoperands : Reads v₂ (product.labelled label identity).inputs [argA, argB] := by
    rw [hproduct]
    exact .cons (hextends₂ _ _ hargA) (.cons hargB .nil)
  have hcomputes : (product.labelled label identity).Computes erf inputs [argA, argB] t := by
    have hmoved : argA.gemm argB (n.productSpec moves a b type) = .ok t :=
      Tensor.gemm_of_same hgemm (hfactorA _) (hfactorB _) hargRankA hargRankB rfl
    rw [hproduct]
    exact .work hmoved
  obtain ⟨v₃, hv₃, hextends₃, hget⟩ := hv₂.exists_snoc (notMem_of_nodup hnodupP) hoperands hcomputes
  have hid : product.id = identity := by rw [hproduct, Primitive.new_id]
  obtain ⟨v₄, p, hv₄, hextends₄, hlast, hvalue⟩ :=
    behind.exists_valued hid hv₃ hnodup (hid ▸ hget) hmatches
  refine ⟨v₄, p, hv₄, hextends₁.trans (hextends₂.trans (hextends₃.trans hextends₄)), ?_, hvalue⟩
  rw [List.append_assoc, List.getLast?_append, List.singleton_append, hlast, Option.some_or]

/-- The crops of a split compute the parts. -/
theorem Crops.exists_valued {c : Call} {reads : List Source} {axis output offset : Nat}
    {types : List TensorType} {ps : List Primitive}
    (h : Crops identity reads axis output offset types ps) (hv : Valued erf inputs before v)
    (hnodup : ((before ++ ps.map (Primitive.labelled label identity)).map Primitive.id).Nodup)
    {input : Tensor} (hinput : args[0]? = some input) (hreads : Reads v reads args)
    (hparts : c.parts input axis offset types = .ok outputs) :
    ∃ v', Valued erf inputs (before ++ ps.map (Primitive.labelled label identity)) v' ∧ v.Extends v' ∧
      List.Forall₂ (fun (p : Primitive) t => v'.get? p.id = some t) ps outputs := by
  induction h generalizing before v outputs with
  | nil =>
      obtain rfl := Except.ok.inj hparts
      exact ⟨v, by simpa using hv, .refl v, .nil⟩
  | @cons output offset length type types sizes ps static extent _ ih =>
      simp only [Call.parts, Outcome.bind_eq_ok_iff, Call.sizesOf_eq_ok_iff,
        Outcome.ofOption_eq_ok_iff, Outcome.pure_eq_ok_iff] at hparts
      obtain ⟨sizes', hsizes', length', hlength', t, ht, rest, hrest, rfl⟩ := hparts
      obtain rfl := Option.some.inj (static.symm.trans hsizes')
      obtain rfl := Option.some.inj (extent.symm.trans hlength')
      let p := Primitive.new (identity ++ outputSuffix output) (.crop axis offset length) reads
      have hcomputes : (p.labelled label identity).Computes erf inputs args t := by
        refine .work ?_
        simp only [p, Step.compute, Primitive.detached, Primitive.labelled_payload,
          Primitive.new_payload, Outcome.bind_eq_ok_iff, Step.argument_eq_ok_iff]
        exact ⟨input, hinput, ht⟩
      obtain ⟨v₁, hv₁, hextends₁, hget⟩ := hv.exists_snoc (notMem_of_nodup hnodup) hreads hcomputes
      rw [List.map_cons, ← List.singleton_append, ← List.append_assoc] at hnodup ⊢
      obtain ⟨v₂, hv₂, hextends₂, hvalues⟩ := ih hv₁ hnodup (hreads.extend hextends₁) hrest
      exact ⟨v₂, hv₂, hextends₁.trans hextends₂, .cons (hextends₂ _ _ hget) hvalues⟩

/-- What a node becomes computes the values of the outputs of the node. -/
theorem Emits.exists_valued {r : RuleName} {ps : List Primitive}
    (h : Emits ctx n identity sources r ps) (hlabel : label.name = n.name)
    (hkind : kind.name ∈ r.kindNames) (hfit : r = .matMul → n.TransposesFit)
    (he : ctx.graph.Evaluates erf inputs n kind args outputs) (hv : Valued erf inputs before v)
    (hnodup : ((before ++ ps.map (Primitive.labelled label identity)).map Primitive.id).Nodup)
    (hreads : Reads v sources args) :
    ∃ v', Valued erf inputs (before ++ ps.map (Primitive.labelled label identity)) v' ∧ v.Extends v' ∧
      Holds v' r ps outputs := by
  cases h with
  | @one r payload reads becomes =>
      have hwhole : r ≠ .split := by
        rintro rfl
        cases becomes
      let p := Primitive.new identity payload reads
      obtain ⟨t, args', rfl, hreads', hcomputes⟩ :=
        becomes.computes hkind he hreads (p := p.labelled label identity) rfl hlabel
      obtain ⟨v', hv', hextends, hget⟩ := hv.exists_snoc (notMem_of_nodup hnodup) hreads' hcomputes
      exact ⟨v', hv', hextends, .last hwhole rfl hget⟩
  | @split type axis values position ps arity input reads first located crops =>
      have hcomputes := he.computes
      obtain ⟨a, b, values', axis', position', ha, hb, hvalues, haxis, hposition, hparts⟩ :=
        (Call.outputs_split_eq_ok_iff hkind).1 hcomputes
      obtain ⟨b', hb', hvalues'⟩ := he.integers _ reads
      obtain rfl := Option.some.inj (hb.symm.trans hb')
      obtain rfl := Option.some.inj (hvalues.symm.trans hvalues')
      obtain rfl := Option.some.inj (first.symm.trans haxis)
      have hrank := (Tensor.matchesType_iff.1 (he.argument 0 a type ha input)).1
      rw [hrank] at hposition
      obtain rfl := Option.some.inj (located.symm.trans hposition)
      have hinput : (args.take 1)[0]? = some a := by rw [List.getElem?_take_of_lt Nat.one_pos, ha]
      obtain ⟨v', hv', hextends, hheld⟩ :=
        crops.exists_valued hv hnodup hinput (hreads.take 1) hparts
      exact ⟨v', hv', hextends, .crops hheld⟩
  | @matMul a b type sourceA sourceB inputA inputB psA psB tail arity readsA readsB typeA typeB
      output operandA operandB behind =>
      have hcomputes := he.computes
      rw [List.mem_singleton.1 hkind] at hcomputes
      obtain ⟨x, y, t, hx, hy, hgemm, rfl⟩ := Call.outputs_matMul_eq_ok_iff.1 hcomputes
      obtain ⟨x', hx', hgetA⟩ := exists_right_of_forall₂ hreads readsA
      obtain ⟨y', hy', hgetB⟩ := exists_right_of_forall₂ hreads readsB
      obtain rfl := Option.some.inj (hx.symm.trans hx')
      obtain rfl := Option.some.inj (hy.symm.trans hy')
      have hmatchesA := he.argument 0 x a hx typeA
      have hmatchesB := he.argument 1 y b hy typeB
      have hstatic : ctx.moves n a b = true → (∃ sizes, a.shape.sizes? = some sizes) ∧
          ∃ sizes, b.shape.sizes? = some sizes :=
        BuildContext.exists_sizes_of_moves
      have hwellA := Tensor.wellFormed_of_countFits hmatchesA (fun hmoves => (hstatic hmoves).1)
        fun hflag => (hfit rfl).left hflag a typeA
      have hwellB := Tensor.wellFormed_of_countFits hmatchesB (fun hmoves => (hstatic hmoves).2)
        fun hflag => (hfit rfl).right hflag b typeB
      obtain ⟨v', p, hv', hextends, hlast, hvalue⟩ :=
        exists_valued_product operandA operandB behind hv rfl
        hnodup hgetA hgetB hwellA hwellB (Tensor.matchesType_iff.1 hmatchesA).1
        (Tensor.matchesType_iff.1 hmatchesB).1 hgemm (he.output 0 t type rfl output)
      exact ⟨v', hv', hextends, .last (by simp) hlast hvalue⟩

end Emission

end TensorLowering
