import TensorLowering.Lowering.Lowerer
import TensorLowering.Proofs.Lowering.Emission

/-!
# Rules that go through

A rule goes through exactly when the inputs of the node are resolved, the node becomes primitives by
`Emits`, and these can be added. One statement for each rule leads to `Lowerer.ends_lowerNode_iff`.
-/

namespace TensorLowering

namespace Node

variable {α : Type} {n : Node}

@[simp] theorem failParameter_ne_ok {fault : ParameterFault} {a : α} :
    n.failParameter fault ≠ .ok a := by
  simp [failParameter, Outcome.bind_eq_ok_iff]

@[simp] theorem failUnsupported_ne_ok {a : α} : n.failUnsupported ≠ .ok a := by
  simp [failUnsupported, Outcome.bind_eq_ok_iff]

theorem checkArity_eq_ok_iff {accepted : List Nat} {a : Unit} :
    n.checkArity accepted = .ok a ↔ n.inputs.length ∈ accepted := by
  by_cases h : n.inputs.length ∈ accepted <;> simp [checkArity, h, Outcome.bind_eq_ok_iff]

@[simp] theorem inputType_eq_ok_iff {input : Nat} {type : TensorType} :
    n.inputType input = .ok type ↔ n.inputTypes[input]? = some type := by
  simp [inputType]

@[simp] theorem outputType_eq_ok_iff {output : Nat} {type : TensorType} :
    n.outputType output = .ok type ↔ n.outputs[output]? = some type := by
  simp [outputType]

@[simp] theorem axisPosition_eq_ok_iff {axis : Int64} {rank position : Nat} :
    n.axisPosition axis rank = .ok position ↔ axisPosition? axis.toInt rank = some position := by
  rw [axisPosition]
  split <;> simp_all

@[simp] theorem staticSizes_eq_ok_iff {shape : Shape} {what : String} {sizes : List Nat} :
    n.staticSizes shape what = .ok sizes ↔ shape.sizes? = some sizes := by
  rw [staticSizes]
  split <;> simp_all

/-- All axes have a position exactly when each has its own. -/
theorem mapM_axisPosition_eq_ok_iff {axes : List Int64} {rank : Nat} {positions : List Nat} :
    (axes.mapM fun axis => n.axisPosition axis rank) = .ok positions ↔
      AxisPositions rank axes positions := by
  rw [Outcome.mapM_eq_ok_iff, AxisPositions]
  simp only [axisPosition_eq_ok_iff]

end Node

namespace BuildContext

variable {ctx : BuildContext} {n : Node}

theorem constantInput_eq_ok_iff {input : Nat} {literal : Literal} :
    ctx.constantInput n input = .ok literal ↔
      ∃ producer, ctx.graph.producer? n input = some producer ∧
        producer.isA Opset.constant = true ∧ producer.value = some literal := by
  rw [constantInput]
  by_cases hlen : n.inputs.length ≤ input
  · have hnone : ctx.graph.producer? n input = none := by
      rw [Graph.producer?, List.getElem?_eq_none hlen]
      rfl
    simp [hlen, hnone, Outcome.bind_eq_ok_iff]
  · cases hproducer : ctx.graph.producer? n input with
    | none => simp [hlen, Outcome.bind_eq_ok_iff]
    | some producer =>
        by_cases hconstant : producer.isA Opset.constant
        · rcases hvalue : producer.value with _ | value <;>
            simp [hlen, hconstant, hvalue, Outcome.bind_eq_ok_iff]
        · simp [hlen, hconstant, Outcome.bind_eq_ok_iff]

/-- The integers of an input are those of the constant that it reads. -/
theorem integerInput_eq_ok_iff {input : Nat} {fault : ParameterFault} {values : List Int64} :
    ctx.integerInput n input fault = .ok values ↔ ctx.graph.ReadsIntegers n input values := by
  simp only [integerInput, Outcome.bind_eq_ok_iff, constantInput_eq_ok_iff]
  constructor
  · rintro ⟨literal, ⟨producer, hproducer, hconstant, hvalue⟩, h⟩
    split at h
    · next hintegers =>
      obtain rfl := Outcome.pure_eq_ok_iff.1 h
      exact ⟨producer, literal, hproducer, hconstant, hvalue, hintegers⟩
    · exact absurd h Node.failParameter_ne_ok
  · rintro ⟨producer, literal, hproducer, hconstant, hvalue, hintegers⟩
    exact ⟨literal, ⟨producer, hproducer, hconstant, hvalue⟩, by simp [hintegers]⟩

end BuildContext

namespace Build

variable {ctx : BuildContext} {n : Node} {label : NodeLabel} {identity : String} {s s' : BuildState}

theorem map_ok_eq_singleton_iff {ps : List Primitive} {p : Primitive} :
    ([.ok p] : Emission) = ps.map .ok ↔ ps = [p] := by
  rcases ps with _ | ⟨q, _ | _⟩ <;> simp [eq_comm]

/-- What it means that a rule goes through. -/
def RuleEnds (ctx : BuildContext) (n : Node) (label : NodeLabel) (identity : String) (r : RuleName)
    (s s' : BuildState) : Prop :=
  ∃ sources ps, ctx.inputs s.ids n = .ok sources ∧ Emits ctx n identity sources r ps ∧
    s.Adds ctx.config.profiling label identity ps s'

/-- It is enough to know when a rule emits primitives. -/
theorem ends_iff_of_emission (hlabel : n.label = .ok label) (hidentity : n.identity = .ok identity)
    {emit : BuildContext → IdentityMap → Node → Outcome LoweringError Emission} {r : RuleName}
    (h : ∀ ps, emit ctx s.ids n = .ok (ps.map .ok) ↔
      ∃ sources, ctx.inputs s.ids n = .ok sources ∧ Emits ctx n identity sources r ps) :
    Ends (Rule.ofEmission emit ctx n) s () s' ↔ RuleEnds ctx n label identity r s s' := by
  rw [ends_ofEmission_iff hlabel hidentity, RuleEnds]
  simp only [h]
  constructor
  · rintro ⟨ps, ⟨sources, hsources, hps⟩, hadds⟩
    exact ⟨sources, ps, hsources, hps, hadds⟩
  · rintro ⟨sources, ps, hsources, hps, hadds⟩
    exact ⟨ps, ⟨sources, hsources, hps⟩, hadds⟩

/-- A node without inputs has nothing to resolve. -/
theorem inputs_eq_ok_of_nil {ids : IdentityMap} (h : n.inputs = []) :
    ctx.inputs ids n = .ok [] := by
  rw [BuildContext.inputs, Node.resolveInputs, h]
  rfl

/-- The order of a transpose comes from its second input, or reverses the axes without one. -/
theorem transposeOrder_eq_ok_iff (harity : n.inputs.length ∈ [1, 2]) {rank : Nat}
    {order : List Nat} :
    Rule.transposeOrder ctx n rank = .ok order ↔ TransposeOrder ctx.graph n rank order := by
  by_cases htwo : n.inputs.length = 2
  · simp only [Rule.transposeOrder, htwo, if_true, Outcome.bind_eq_ok_iff,
      BuildContext.integerInput_eq_ok_iff, Node.mapM_axisPosition_eq_ok_iff]
    constructor
    · rintro ⟨values, hvalues, horder⟩
      exact .given htwo hvalues horder
    · intro h
      cases h with
      | given _ hvalues horder => exact ⟨_, hvalues, horder⟩
      | reversed hone => omega
  · have hone : n.inputs.length = 1 := by simpa [htwo] using harity
    simp only [Rule.transposeOrder, htwo, if_false, Outcome.pure_eq_ok_iff]
    constructor
    · rintro rfl
      exact .reversed hone
    · intro h
      cases h with
      | given hlen => exact absurd hlen htwo
      | reversed => rfl

theorem splitLength_eq_ok_iff {axis length : Nat} {type : TensorType} :
    Rule.splitLength n axis type = .ok length ↔
      ∃ sizes, type.shape.sizes? = some sizes ∧ sizes[axis]? = some length := by
  simp only [Rule.splitLength, Outcome.bind_eq_ok_iff, Node.staticSizes_eq_ok_iff,
    Outcome.ofOption_eq_ok_iff]

/-- The steps of a split are crops, unless one of the parts has no known length. -/
theorem crops_eq_map_ok_iff {inputs : List Source} {axis output offset : Nat}
    {types : List TensorType} {ps : List Primitive} :
    Rule.crops n identity inputs axis output offset types = ps.map .ok ↔
      Crops identity inputs axis output offset types ps := by
  induction types generalizing output offset ps with
  | nil =>
      rw [Rule.crops]
      constructor
      · intro h
        cases ps with
        | nil => exact .nil output offset
        | cons => cases h
      · intro h
        cases h
        rfl
  | cons type types ih =>
      rw [Rule.crops]
      cases hlength : Rule.splitLength n axis type with
      | error fault =>
          constructor
          · intro h
            rcases ps with _ | ⟨p, ps⟩ <;> cases h
          · intro h
            cases h with
            | cons static extent => simp [splitLength_eq_ok_iff.2 ⟨_, static, extent⟩] at hlength
      | ok length =>
          constructor
          · intro h
            obtain ⟨sizes, static, extent⟩ := splitLength_eq_ok_iff.1 hlength
            cases ps with
            | nil => cases h
            | cons p ps =>
                obtain ⟨hp, hps⟩ := List.cons.inj h
                obtain rfl := Except.ok.inj hp
                exact .cons static extent (ih.1 hps)
          · intro h
            cases h with
            | cons static extent rest =>
                have hsame := hlength.symm.trans (splitLength_eq_ok_iff.2 ⟨_, static, extent⟩)
                obtain rfl := Except.ok.inj hsame
                rw [List.map_cons, ← ih.2 rest]

/-- The permutation in front of an operand, and what the product reads in its place. -/
theorem moveTranspose_eq_iff {moved : Bool} {side : String} {shape : Shape} {source input : Source}
    {ps : List Primitive} :
    Rule.moveTranspose n moved side shape source = (ps.map .ok, input) ↔
      Operand n side shape source moved ps input := by
  cases moved with
  | false =>
      constructor
      · intro h
        obtain ⟨hps, rfl⟩ := Prod.mk.inj h
        obtain rfl : ps = [] := List.map_eq_nil_iff.1 hps.symm
        exact .stays
      · intro h
        cases h
        rfl
  | true =>
      cases hswap : swapLastTwo? shape.rank with
      | none =>
          constructor
          · intro h
            rcases ps with _ | ⟨p, _ | _⟩ <;>
              simp [Rule.moveTranspose, hswap, Outcome.ofOption, Outcome.abort] at h
          · intro h
            cases h with
            | moves swap => simp [hswap] at swap
      | some order =>
          have hmove : Rule.moveTranspose n true side shape source =
              ([.ok (.new (n.name ++ side) (.permute order) [source])], ⟨n.name ++ side, 0⟩) := by
            simp [Rule.moveTranspose, hswap, Outcome.ofOption]
          rw [hmove, Prod.mk.injEq, map_ok_eq_singleton_iff]
          constructor
          · rintro ⟨rfl, rfl⟩
            exact .moves hswap
          · intro h
            cases h with
            | moves swap =>
                obtain rfl := Option.some.inj (hswap.symm.trans swap)
                exact ⟨rfl, rfl⟩

/-- The reshape behind a product goes to the sizes of the output, when these are fewer than those of
a product. -/
theorem productReshape_eq_ok (identity : String) {type : TensorType}
    (output : n.outputs[0]? = some type) {sizes : List Nat}
    (static : type.shape.sizes? = some sizes) :
    Rule.productReshape n identity = .ok (if sizes.length < Rule.nativeProductRank then
      some (.new (identity ++ "_out_reshape") (.reshape (some sizes)) [⟨identity, 0⟩])
      else none) := by
  simp only [Rule.productReshape, Outcome.bind_eq_ok_iff, Outcome.pure_eq_ok_iff]
  exact ⟨type, Node.outputType_eq_ok_iff.2 output, sizes, Node.staticSizes_eq_ok_iff.2 static, rfl⟩

/-- There is no reshape to sizes that are not known. -/
theorem exists_productReshape_eq_error (identity : String) {type : TensorType}
    (output : n.outputs[0]? = some type) (symbolic : type.shape.sizes? = none) :
    ∃ fault, Rule.productReshape n identity = .error fault := by
  cases hreshape : Rule.productReshape n identity with
  | error fault => exact ⟨fault, rfl⟩
  | ok tail =>
      simp only [Rule.productReshape, Node.outputType_eq_ok_iff.2 output, Outcome.bind_eq_ok_iff,
        Except.ok.injEq, Node.staticSizes_eq_ok_iff] at hreshape
      obtain ⟨_, rfl, sizes, hstatic, -⟩ := hreshape
      simp [symbolic] at hstatic

/-- The reshape behind a product is emitted when the sizes of the output are known. -/
theorem productTail_iff {type : TensorType} (output : n.outputs[0]? = some type)
    {newShapeInference : Bool} {tail : List Primitive} :
    (if newShapeInference then []
      else
        match Rule.productReshape n identity with
        | .ok (some p) => [.ok p]
        | .ok none => []
        | .error fault => [.error fault] : Emission) = tail.map .ok ↔
      ProductTail newShapeInference identity type tail := by
  cases newShapeInference with
  | true =>
      constructor
      · intro h
        obtain rfl : tail = [] := List.map_eq_nil_iff.1 h.symm
        exact .none rfl
      · intro h
        cases h with
        | none => rfl
        | native hregime | reshape hregime => cases hregime
  | false =>
      cases hsizes : type.shape.sizes? with
      | none =>
          obtain ⟨fault, hreshape⟩ := exists_productReshape_eq_error identity output hsizes
          constructor
          · intro h
            rcases tail with _ | ⟨p, _ | _⟩ <;> simp [hreshape] at h
          · intro h
            cases h with
            | none hregime => cases hregime
            | native _ static | reshape _ static => simp [hsizes] at static
      | some sizes =>
          have hreshape := productReshape_eq_ok identity output hsizes
          by_cases hrank : sizes.length < Rule.nativeProductRank
          · simp only [Bool.false_eq_true, if_false, hreshape, hrank, if_true,
              map_ok_eq_singleton_iff]
            constructor
            · rintro rfl
              exact .reshape rfl hsizes hrank
            · intro h
              cases h with
              | none hregime => cases hregime
              | native _ static hnative =>
                  obtain rfl := Option.some.inj (hsizes.symm.trans static)
                  omega
              | reshape _ static =>
                  obtain rfl := Option.some.inj (hsizes.symm.trans static)
                  rfl
          · simp only [Bool.false_eq_true, if_false, hreshape, hrank]
            constructor
            · intro h
              obtain rfl : tail = [] := List.map_eq_nil_iff.1 h.symm
              exact .native rfl hsizes (by omega)
            · intro h
              cases h with
              | none hregime => cases hregime
              | native => rfl
              | reshape _ static hfew =>
                  obtain rfl := Option.some.inj (hsizes.symm.trans static)
                  exact absurd hfew hrank

variable (hlabel : n.label = .ok label) (hidentity : n.identity = .ok identity)
include hlabel hidentity

theorem ends_parameter_iff :
    Ends (Rule.parameter ctx n) s () s' ↔ RuleEnds ctx n label identity .parameter s s' := by
  refine ends_iff_of_emission hlabel hidentity fun ps => ?_
  simp only [Outcome.bind_eq_ok_iff, Node.checkArity_eq_ok_iff, hidentity, Except.ok.injEq,
    Node.outputType_eq_ok_iff, Outcome.pure_eq_ok_iff, map_ok_eq_singleton_iff]
  constructor
  · rintro ⟨-, harity, _, rfl, type, htype, rfl⟩
    have hnil : n.inputs = [] := by simpa using harity
    exact ⟨[], inputs_eq_ok_of_nil hnil, .one (.parameter hnil htype)⟩
  · rintro ⟨sources, -, h⟩
    cases h with
    | one becomes =>
        cases becomes with
        | parameter harity htype => exact ⟨(), by simp [harity], _, rfl, _, htype, rfl⟩

theorem ends_constant_iff :
    Ends (Rule.constant ctx n) s () s' ↔ RuleEnds ctx n label identity .constant s s' := by
  refine ends_iff_of_emission hlabel hidentity fun ps => ?_
  simp only [Outcome.bind_eq_ok_iff, Node.checkArity_eq_ok_iff]
  constructor
  · rintro ⟨-, harity, h⟩
    have hnil : n.inputs = [] := by simpa using harity
    split at h
    · next literal hvalue =>
      simp only [Outcome.bind_eq_ok_iff, hidentity, Except.ok.injEq, Outcome.pure_eq_ok_iff,
        map_ok_eq_singleton_iff] at h
      obtain ⟨_, rfl, rfl⟩ := h
      exact ⟨[], inputs_eq_ok_of_nil hnil, .one (.constant hnil hvalue)⟩
    · exact absurd h Node.failParameter_ne_ok
  · rintro ⟨sources, -, h⟩
    cases h with
    | one becomes =>
        cases becomes with
        | constant harity hvalue =>
            refine ⟨(), by simp [harity], ?_⟩
            simp [hvalue, hidentity]

theorem ends_result_iff :
    Ends (Rule.result ctx n) s () s' ↔ RuleEnds ctx n label identity .result s s' := by
  refine ends_iff_of_emission hlabel hidentity fun ps => ?_
  simp only [Outcome.bind_eq_ok_iff, Node.checkArity_eq_ok_iff, hidentity, Except.ok.injEq,
    Node.outputType_eq_ok_iff, Outcome.pure_eq_ok_iff, map_ok_eq_singleton_iff]
  constructor
  · rintro ⟨-, harity, sources, hsources, _, rfl, type, htype, rfl⟩
    exact ⟨sources, hsources, .one (.result (by simpa using harity) htype)⟩
  · rintro ⟨sources, hsources, h⟩
    cases h with
    | one becomes =>
        cases becomes with
        | result harity htype =>
            exact ⟨(), by simp [harity], sources, hsources, _, rfl, _, htype, rfl⟩

theorem ends_eltwise_iff :
    Ends (Rule.eltwise ctx n) s () s' ↔ RuleEnds ctx n label identity .eltwise s s' := by
  refine ends_iff_of_emission hlabel hidentity fun ps => ?_
  simp only [Outcome.bind_eq_ok_iff, Node.checkArity_eq_ok_iff, Node.kindName_eq_ok_iff]
  constructor
  · rintro ⟨-, harity, _, ⟨kind, hkind, rfl⟩, h⟩
    split at h
    · next mode hmode =>
      simp only [Outcome.bind_eq_ok_iff, hidentity, Except.ok.injEq, Node.outputType_eq_ok_iff,
        Outcome.pure_eq_ok_iff, map_ok_eq_singleton_iff] at h
      obtain ⟨sources, hsources, _, rfl, type, htype, rfl⟩ := h
      exact ⟨sources, hsources, .one (.eltwise (by simpa using harity) hkind hmode htype)⟩
    · exact absurd h Node.failUnsupported_ne_ok
  · rintro ⟨sources, hsources, h⟩
    cases h with
    | one becomes =>
        cases becomes with
        | eltwise harity hkind hmode htype =>
            refine ⟨(), by simp [harity], _, ⟨_, hkind, rfl⟩, ?_⟩
            simp only [hmode, Outcome.bind_eq_ok_iff, hidentity, Node.outputType_eq_ok_iff]
            exact ⟨sources, hsources, _, rfl, _, htype, rfl⟩

theorem ends_erf_iff :
    Ends (Rule.erf ctx n) s () s' ↔ RuleEnds ctx n label identity .erf s s' := by
  refine ends_iff_of_emission hlabel hidentity fun ps => ?_
  simp only [Outcome.bind_eq_ok_iff, Node.checkArity_eq_ok_iff, hidentity, Except.ok.injEq,
    Outcome.pure_eq_ok_iff, map_ok_eq_singleton_iff]
  constructor
  · rintro ⟨-, harity, sources, hsources, _, rfl, rfl⟩
    exact ⟨sources, hsources, .one (.erf (by simpa using harity))⟩
  · rintro ⟨sources, hsources, h⟩
    cases h with
    | one becomes =>
        cases becomes with
        | erf harity => exact ⟨(), by simp [harity], sources, hsources, _, rfl, rfl⟩

theorem ends_reduction_iff :
    Ends (Rule.reduction ctx n) s () s' ↔ RuleEnds ctx n label identity .reduction s s' := by
  refine ends_iff_of_emission hlabel hidentity fun ps => ?_
  simp only [Outcome.bind_eq_ok_iff, Node.checkArity_eq_ok_iff, Node.kindName_eq_ok_iff]
  constructor
  · rintro ⟨-, harity, _, ⟨kind, hkind, rfl⟩, h⟩
    split at h
    · next mode hmode =>
      simp only [Outcome.bind_eq_ok_iff, hidentity, Except.ok.injEq, Node.inputType_eq_ok_iff,
        BuildContext.integerInput_eq_ok_iff, Node.mapM_axisPosition_eq_ok_iff,
        Outcome.pure_eq_ok_iff, map_ok_eq_singleton_iff] at h
      obtain ⟨sources, hsources, type, htype, values, hvalues, axes, haxes, _, rfl, rfl⟩ := h
      exact ⟨sources, hsources,
        .one (.reduction (by simpa using harity) hkind hmode htype hvalues haxes)⟩
    · exact absurd h Node.failUnsupported_ne_ok
  · rintro ⟨sources, hsources, h⟩
    cases h with
    | one becomes =>
        cases becomes with
        | reduction harity hkind hmode htype hvalues haxes =>
            refine ⟨(), by simp [harity], _, ⟨_, hkind, rfl⟩, ?_⟩
            simp only [hmode, Outcome.bind_eq_ok_iff, hidentity, Node.inputType_eq_ok_iff,
              BuildContext.integerInput_eq_ok_iff, Node.mapM_axisPosition_eq_ok_iff]
            exact ⟨sources, hsources, _, htype, _, hvalues, _, haxes, _, rfl, rfl⟩

theorem ends_transpose_iff :
    Ends (Rule.transpose ctx n) s () s' ↔ RuleEnds ctx n label identity .transpose s s' := by
  refine ends_iff_of_emission hlabel hidentity fun ps => ?_
  simp only [Outcome.bind_eq_ok_iff, Node.checkArity_eq_ok_iff, Node.inputType_eq_ok_iff]
  constructor
  · rintro ⟨-, harity, sources, hsources, type, htype, order, horder, h⟩
    rw [transposeOrder_eq_ok_iff harity] at horder
    by_cases hlength : order.length = type.shape.rank
    · simp only [hlength, ne_eq, not_true_eq_false, if_false, Outcome.bind_eq_ok_iff] at h
      obtain ⟨_ | axis, hrepeated, h⟩ := h
      · simp only [hidentity, Outcome.bind_eq_ok_iff, Except.ok.injEq, Outcome.pure_eq_ok_iff,
          map_ok_eq_singleton_iff] at h
        obtain ⟨_, rfl, rfl⟩ := h
        exact ⟨sources, hsources, .one (.transpose htype horder hlength hrepeated)⟩
      · simp at h
    · simp [hlength, Outcome.bind_eq_ok_iff] at h
  · rintro ⟨sources, hsources, h⟩
    cases h with
    | one becomes =>
        cases becomes with
        | transpose htype horder hlength hdistinct =>
            have harity : n.inputs.length ∈ [1, 2] := by
              cases horder with
              | given htwo => simp [htwo]
              | reversed hone => simp [hone]
            refine ⟨(), harity, sources, hsources, _, htype, _,
              (transposeOrder_eq_ok_iff harity).2 horder, ?_⟩
            simp only [hlength, ne_eq, not_true_eq_false, if_false, Outcome.bind_eq_ok_iff]
            exact ⟨none, hdistinct, by simp [hidentity]⟩

theorem ends_reshape_iff :
    Ends (Rule.reshape ctx n) s () s' ↔ RuleEnds ctx n label identity .reshape s s' := by
  refine ends_iff_of_emission hlabel hidentity fun ps => ?_
  simp only [Outcome.bind_eq_ok_iff, Node.checkArity_eq_ok_iff, hidentity, Except.ok.injEq,
    Node.outputType_eq_ok_iff, Outcome.pure_eq_ok_iff, map_ok_eq_singleton_iff]
  constructor
  · rintro ⟨-, harity, sources, hsources, type, htype, _, rfl, rfl⟩
    exact ⟨sources, hsources, .one (.reshape (by simpa using harity) htype)⟩
  · rintro ⟨sources, hsources, h⟩
    cases h with
    | one becomes =>
        cases becomes with
        | reshape harity htype =>
            exact ⟨(), by simp [harity], sources, hsources, _, htype, _, rfl, rfl⟩

theorem ends_concat_iff :
    Ends (Rule.concat ctx n) s () s' ↔ RuleEnds ctx n label identity .concat s s' := by
  refine ends_iff_of_emission hlabel hidentity fun ps => ?_
  by_cases hnil : n.inputs = []
  · constructor
    · intro h
      simp [hnil, Outcome.bind_eq_ok_iff] at h
    · rintro ⟨sources, -, h⟩
      cases h with
      | one becomes =>
          cases becomes with
          | concat hinputs => exact absurd hnil hinputs
  · simp only [hnil, if_false, Outcome.bind_eq_ok_iff]
    constructor
    · rintro ⟨sources, hsources, h⟩
      split at h
      · next axis haxis =>
        simp only [Outcome.bind_eq_ok_iff, hidentity, Except.ok.injEq, Node.outputType_eq_ok_iff,
          Node.axisPosition_eq_ok_iff, Outcome.pure_eq_ok_iff, map_ok_eq_singleton_iff] at h
        obtain ⟨type, htype, position, hposition, _, rfl, rfl⟩ := h
        exact ⟨sources, hsources, .one (.concat hnil haxis htype hposition)⟩
      · exact absurd h Node.failParameter_ne_ok
    · rintro ⟨sources, hsources, h⟩
      cases h with
      | one becomes =>
          cases becomes with
          | concat _ haxis htype hposition =>
              refine ⟨sources, hsources, ?_⟩
              simp only [haxis, Outcome.bind_eq_ok_iff, hidentity, Node.outputType_eq_ok_iff,
                Node.axisPosition_eq_ok_iff]
              exact ⟨_, htype, _, hposition, _, rfl, rfl⟩

theorem ends_fullyConnected_iff :
    Ends (Rule.fullyConnected ctx n) s () s' ↔
      RuleEnds ctx n label identity .fullyConnected s s' := by
  refine ends_iff_of_emission hlabel hidentity fun ps => ?_
  simp only [Outcome.bind_eq_ok_iff, Node.checkArity_eq_ok_iff, hidentity, Except.ok.injEq,
    Node.outputType_eq_ok_iff, Outcome.pure_eq_ok_iff, map_ok_eq_singleton_iff]
  constructor
  · rintro ⟨-, harity, ⟨⟩, hweights, sources, hsources, _, rfl, type, htype, rfl⟩
    exact ⟨sources, hsources, .one (.fullyConnected (by simpa using harity) hweights htype)⟩
  · rintro ⟨sources, hsources, h⟩
    cases h with
    | one becomes =>
        cases becomes with
        | fullyConnected harity hweights htype =>
            exact ⟨(), by simp [harity], (), hweights, sources, hsources, _, rfl, _, htype, rfl⟩

theorem ends_fullyConnectedCompressed_iff :
    Ends (Rule.fullyConnectedCompressed ctx n) s () s' ↔
      RuleEnds ctx n label identity .fullyConnectedCompressed s s' := by
  refine ends_iff_of_emission hlabel hidentity fun ps => ?_
  simp only [Outcome.bind_eq_ok_iff, Node.checkArity_eq_ok_iff]
  by_cases hfour : 3 < n.inputs.length
  · simp only [hfour, if_true, Outcome.bind_eq_ok_iff, hidentity, Except.ok.injEq,
      Node.outputType_eq_ok_iff, Outcome.pure_eq_ok_iff, map_ok_eq_singleton_iff]
    constructor
    · rintro ⟨-, harity, ⟨⟩, hweights, ⟨⟩, hscale, ⟨⟩, hzero, sources, hsources, type, htype, _,
        rfl, rfl⟩
      exact ⟨sources, hsources, .one (.fullyConnectedCompressed (by simpa using harity) hweights
        hscale (fun _ => hzero) htype)⟩
    · rintro ⟨sources, hsources, h⟩
      cases h with
      | one becomes =>
          cases becomes with
          | fullyConnectedCompressed harity hweights hscale hzero htype =>
              exact ⟨(), by simpa using harity, (), hweights, (), hscale, (), hzero hfour, sources,
                hsources, _, htype, _, rfl, rfl⟩
  · simp only [hfour, if_false, Outcome.bind_eq_ok_iff, hidentity, Except.ok.injEq,
      Node.outputType_eq_ok_iff, Outcome.pure_eq_ok_iff, map_ok_eq_singleton_iff]
    constructor
    · rintro ⟨-, harity, ⟨⟩, hweights, ⟨⟩, hscale, sources, hsources, type, htype, _, rfl, rfl⟩
      exact ⟨sources, hsources, .one (.fullyConnectedCompressed (by simpa using harity) hweights
        hscale (fun h => absurd h hfour) htype)⟩
    · rintro ⟨sources, hsources, h⟩
      cases h with
      | one becomes =>
          cases becomes with
          | fullyConnectedCompressed harity hweights hscale _ htype =>
              exact ⟨(), by simpa using harity, (), hweights, (), hscale, sources, hsources, _,
                htype, _, rfl, rfl⟩

theorem ends_split_iff :
    Ends (Rule.split ctx n) s () s' ↔ RuleEnds ctx n label identity .split s s' := by
  refine ends_iff_of_emission hlabel hidentity fun ps => ?_
  simp only [Outcome.bind_eq_ok_iff, Node.checkArity_eq_ok_iff, BuildContext.integerInput_eq_ok_iff]
  constructor
  · rintro ⟨-, harity, sources, hsources, values, hvalues, h⟩
    split at h
    · next axis haxis =>
      simp only [Outcome.bind_eq_ok_iff, hidentity, Except.ok.injEq, Node.inputType_eq_ok_iff,
        Node.axisPosition_eq_ok_iff, Outcome.pure_eq_ok_iff, crops_eq_map_ok_iff] at h
      obtain ⟨type, htype, position, hposition, _, rfl, hcrops⟩ := h
      refine ⟨sources, hsources, .split ?_ htype hvalues haxis hposition hcrops⟩
      split at harity <;> simp_all
    · exact absurd h Node.failParameter_ne_ok
  · rintro ⟨sources, hsources, h⟩
    cases h with
    | one becomes => cases becomes
    | split harity htype hvalues haxis hposition hcrops =>
        refine ⟨(), by split <;> simp_all, sources, hsources, _, hvalues, ?_⟩
        simp only [haxis, Outcome.bind_eq_ok_iff, hidentity, Except.ok.injEq,
          Node.inputType_eq_ok_iff, Node.axisPosition_eq_ok_iff, Outcome.pure_eq_ok_iff,
          crops_eq_map_ok_iff]
        exact ⟨_, htype, _, hposition, _, rfl, hcrops⟩

theorem ends_matMul_iff :
    Ends (Rule.matMul ctx n) s () s' ↔ RuleEnds ctx n label identity .matMul s s' := by
  refine ends_iff_of_emission hlabel hidentity fun ps => ?_
  simp only [Outcome.bind_eq_ok_iff, Node.checkArity_eq_ok_iff, hidentity, Except.ok.injEq,
    Node.inputType_eq_ok_iff, Outcome.ofOption_eq_ok_iff, Outcome.pure_eq_ok_iff]
  constructor
  · rintro ⟨-, harity, sources, hsources, _, rfl, a, ha, b, hb, sourceA, hsourceA, sourceB,
      hsourceB, h⟩
    obtain ⟨front, tail, rfl, hfront, htail⟩ := List.map_eq_append_iff.1 h.symm
    obtain ⟨operands, product, rfl, hoperands, hproduct⟩ := List.map_eq_append_iff.1 hfront
    obtain ⟨psA, psB, rfl, hA, hB⟩ := List.map_eq_append_iff.1 hoperands
    obtain ⟨p, rfl, hp⟩ := List.map_eq_singleton_iff.1 hproduct
    obtain ⟨type, htype, hp⟩ := Outcome.bind_eq_ok_iff.1 hp.symm
    rw [Node.outputType_eq_ok_iff] at htype
    obtain rfl := Outcome.pure_eq_ok_iff.1 hp
    exact ⟨sources, hsources, .matMul (by simpa using harity) hsourceA hsourceB ha hb htype
      (moveTranspose_eq_iff.1 (Prod.ext hA.symm rfl))
      (moveTranspose_eq_iff.1 (Prod.ext hB.symm rfl)) ((productTail_iff htype).1 htail.symm)⟩
  · rintro ⟨sources, hsources, h⟩
    cases h with
    | one becomes => cases becomes
    | matMul arity readsA readsB typeA typeB output operandA operandB behind =>
        refine ⟨(), by simp [arity], sources, hsources, _, rfl, _, typeA, _, typeB, _, readsA, _,
          readsB, ?_⟩
        have hA := moveTranspose_eq_iff.2 operandA
        have hB := moveTranspose_eq_iff.2 operandB
        simp only [BuildContext.moves] at hA hB
        rw [hA, hB, Node.outputType_eq_ok_iff.2 output, List.map_append, List.map_append,
          List.map_append]
        exact congrArg₂ (· ++ ·) rfl ((productTail_iff output).2 behind)

theorem ends_kernel_iff {k : KernelDescriptor} :
    Ends (Rule.kernel k ctx n) s () s' ↔ RuleEnds ctx n label identity (.kernel k) s s' := by
  refine ends_iff_of_emission hlabel hidentity fun ps => ?_
  simp only [Outcome.bind_eq_ok_iff, hidentity, Except.ok.injEq, Node.staticSizes_eq_ok_iff,
    Outcome.pure_eq_ok_iff, map_ok_eq_singleton_iff]
  constructor
  · rintro ⟨sources, hsources, inputs, hinputs, output, houtput, sizes, hsizes, options, hoptions,
      globalSizes, hglobal, localSizes, hlocal, _, rfl, rfl⟩
    exact ⟨sources, hsources, .one (.kernel hinputs houtput hsizes hoptions hglobal hlocal)⟩
  · rintro ⟨sources, hsources, h⟩
    cases h with
    | one becomes =>
        cases becomes with
        | kernel hinputs houtput hsizes hoptions hglobal hlocal =>
            exact ⟨sources, hsources, _, hinputs, _, houtput, _, hsizes, _, hoptions, _, hglobal, _,
              hlocal, _, rfl, rfl⟩

/-- Every rule goes through exactly when its node becomes primitives that can be added. -/
theorem ends_rule_iff (r : RuleName) :
    Ends (r.rule ctx n) s () s' ↔ RuleEnds ctx n label identity r s s' := by
  cases r with
  | parameter => exact ends_parameter_iff hlabel hidentity
  | constant => exact ends_constant_iff hlabel hidentity
  | result => exact ends_result_iff hlabel hidentity
  | eltwise => exact ends_eltwise_iff hlabel hidentity
  | erf => exact ends_erf_iff hlabel hidentity
  | reduction => exact ends_reduction_iff hlabel hidentity
  | split => exact ends_split_iff hlabel hidentity
  | transpose => exact ends_transpose_iff hlabel hidentity
  | reshape => exact ends_reshape_iff hlabel hidentity
  | concat => exact ends_concat_iff hlabel hidentity
  | matMul => exact ends_matMul_iff hlabel hidentity
  | fullyConnected => exact ends_fullyConnected_iff hlabel hidentity
  | fullyConnectedCompressed => exact ends_fullyConnectedCompressed_iff hlabel hidentity
  | kernel k => exact ends_kernel_iff hlabel hidentity

end Build

namespace Lowerer

open Build

variable {l : Lowerer} {ctx : BuildContext} {n : Node} {s s' : BuildState}

/-- The rule of a node: that of its kernel, or else the first that one of its levels has. -/
def ruleName? (l : Lowerer) (n : Node) : Option RuleName := do
  let kind ← n.kind?
  match l.overlay.get? kind.name with
  | some k => some (.kernel k)
  | none => n.type.levels.findSome? fun level => RuleName.table.lookup level

/-- Lowering a node goes through: it becomes the given primitives, which are added to the build. -/
inductive Lowers (l : Lowerer) (ctx : BuildContext) (n : Node) (s : BuildState)
    (ps : List Primitive) (s' : BuildState) : Prop where
  | intro {label : NodeLabel} {identity : String} {r : RuleName} {sources : List Source}
      (labelled : n.label = .ok label) (identified : n.identity = .ok identity)
      (ruled : l.ruleName? n = some r) (resolved : ctx.inputs s.ids n = .ok sources)
      (emits : Emits ctx n identity sources r ps)
      (adds : s.Adds ctx.config.profiling label identity ps s')

theorem findRule?_standard (hregistry : l.registry = .standard) (type : OpType) :
    (l.findRule? type).map (·.2) =
      (type.levels.findSome? fun level => RuleName.table.lookup level).map RuleName.rule := by
  rw [findRule?, hregistry]
  induction type.levels with
  | nil => rfl
  | cons level rest ih =>
      rw [List.findSome?_cons, List.findSome?_cons, RuleName.rule?_standard]
      rcases RuleName.table.lookup level with _ | r
      · exact ih
      · rfl

/-- A node is handed to the rule of its name. -/
theorem ends_lowerNode_iff_of_kind (hregistry : l.registry = .standard) {kind : OpKind}
    (hkind : n.kind? = some kind) :
    Ends (l.lowerNode ctx n) s () s' ↔
      ∃ r, l.ruleName? n = some r ∧ Ends (r.rule ctx n) s () s' := by
  have hname : n.kindName = .ok kind.name := Node.kindName_eq_ok_iff.2 ⟨kind, hkind, rfl⟩
  cases hoverlay : l.overlay.get? kind.name with
  | none =>
      have hfind := findRule?_standard hregistry n.type
      have hruled : l.ruleName? n = n.type.levels.findSome? fun level =>
          RuleName.table.lookup level := by
        simp [ruleName?, hkind, hoverlay]
      rw [← hruled] at hfind
      cases hrule : l.ruleName? n with
      | none =>
          rw [hrule, Option.map_none, Option.map_eq_none_iff] at hfind
          simp [lowerNode, ends_bind_iff, ends_lift_iff, hname, hoverlay, hfind]
      | some r =>
          rw [hrule] at hfind
          obtain ⟨⟨level, rule⟩, hfound, rfl⟩ := Option.map_eq_some_iff.1 hfind
          simp [lowerNode, ends_bind_iff, ends_lift_iff, hname, hoverlay, hfound]
  | some k =>
      have hruled : l.ruleName? n = some (.kernel k) := by
        simp [ruleName?, hkind, hoverlay]
      simp [lowerNode, ends_bind_iff, ends_lift_iff, hname, hoverlay, hruled, RuleName.rule]

/-- A node is lowered exactly when it becomes primitives by the rule of its name. -/
theorem ends_lowerNode_iff (hregistry : l.registry = .standard) :
    Ends (l.lowerNode ctx n) s () s' ↔ ∃ ps, l.Lowers ctx n s ps s' := by
  constructor
  · intro h
    obtain ⟨kind, hkind⟩ : ∃ kind, n.kind? = some kind := by
      simp only [lowerNode, ends_bind_iff, ends_lift_iff, Node.kindName_eq_ok_iff] at h
      obtain ⟨_, _, ⟨⟨kind, hkind, -⟩, -⟩, -⟩ := h
      exact ⟨kind, hkind⟩
    have hlabel : n.label = .ok ⟨n.name, kind⟩ := Node.label_eq_ok_iff.2 ⟨kind, hkind, rfl⟩
    have hidentity : n.identity = .ok _ := Node.identity_eq_ok_iff.2 ⟨kind, hkind, rfl⟩
    obtain ⟨r, hr, hends⟩ := (ends_lowerNode_iff_of_kind hregistry hkind).1 h
    obtain ⟨sources, ps, hsources, hemits, hadds⟩ := (ends_rule_iff hlabel hidentity r).1 hends
    exact ⟨ps, hlabel, hidentity, hr, hsources, hemits, hadds⟩
  · rintro ⟨ps, hlabel, hidentity, hr, hsources, hemits, hadds⟩
    obtain ⟨kind, hkind, -⟩ := Node.label_eq_ok_iff.1 hlabel
    rw [ends_lowerNode_iff_of_kind hregistry hkind]
    exact ⟨_, hr, (ends_rule_iff hlabel hidentity _).2 ⟨_, ps, hsources, hemits, hadds⟩⟩

end Lowerer

end TensorLowering
