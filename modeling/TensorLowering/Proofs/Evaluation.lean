import Mathlib.Data.List.Induction
import TensorLowering.Evaluation
import TensorLowering.Program.Execution
import TensorLowering.Proofs.Graph.Assembly
import TensorLowering.Proofs.Tensor.Layout

/-!
# What evaluating a graph gives

Evaluating a graph computes the outputs of each node from outputs of earlier nodes. When all of them
are of their declared types, the inputs of each node are of its input types.

## Main statements

* `Evaluation.evaluated_of_run`: what was evaluated at each node.
* `Evaluation.get?_results`: what stands among the results under the name of a result node.
* `Graph.Conforms.arg`: the inputs of a node are of its input types.
-/

namespace TensorLowering

namespace Tensor

variable {t : Tensor} {type : TensorType}

theorem matchesType_iff :
    t.matchesType type = true ↔ t.rank = type.shape.rank ∧
      (∀ pair ∈ type.shape.extents.zip t.sizes, pair.1.size?.all (· == pair.2) = true) ∧
      t.element = type.element := by
  rw [matchesType, Bool.and_eq_true, Bool.and_eq_true, beq_iff_eq, beq_iff_eq, List.all_eq_true,
    and_assoc]
  rfl

/-- A tensor of a type without symbols has the sizes of the type. -/
theorem sizes_eq_of_matchesType (h : t.matchesType type = true) {sizes : List Nat}
    (hsizes : type.shape.sizes? = some sizes) : t.sizes = sizes := by
  obtain ⟨hrank, hextents, -⟩ := matchesType_iff.1 h
  have hall := Outcome.mapM_eq_some_iff.1 hsizes
  have hlength : t.sizes.length = sizes.length := hrank.trans hall.length_eq
  apply List.ext_getElem hlength
  intro i hi hi'
  obtain ⟨extent, hextent, hsize⟩ := exists_left_of_forall₂ hall (List.getElem?_eq_getElem hi')
  have hpair : (type.shape.extents.zip t.sizes)[i]? = some (extent, t.sizes[i]) := by
    rw [List.getElem?_zip_eq_some]
    exact ⟨hextent, List.getElem?_eq_getElem hi⟩
  have hagree := hextents _ (List.mem_of_getElem? hpair)
  rw [hsize] at hagree
  rw [Option.all_some, beq_iff_eq] at hagree
  exact hagree.symm

/-- The tensor of a literal holds the integers of the literal. -/
theorem integers?_of_ofLiteral {literal : Literal} {values : List Int64}
    (h : ofLiteral literal = .ok t) (hvalues : literal.integers? = some values) :
    t.integers? = some values := by
  rw [ofLiteral] at h
  rw [Literal.integers?] at hvalues
  split at h
  · simp [failExecution] at h
  · rcases helement : literal.type.element with _ | _ | _ | _ | _ | _ | _ | _ <;>
      simp only [helement] at h hvalues <;> try cases hvalues
    · obtain ⟨-, helements⟩ := new_eq_ok_iff.1 h
      simp [integers?, helements]
    · obtain ⟨-, helements⟩ := new_eq_ok_iff.1 h
      simp [integers?, helements]

end Tensor

namespace Evaluation

variable {erf : ErrorFunction} {inputs : NameMap Tensor} {nodes : List Node} {s : Progress} {n : Node}

namespace Call

variable {args outputs : List Tensor} {t : Tensor}

theorem arg_eq_ok_iff {c : Call} {index : Nat} : c.arg index = .ok t ↔ c.args[index]? = some t := by
  rw [arg]
  split
  · next heq => simp [heq]
  · next heq => simp [heq, fail, failExecution]

theorem axisPosition_eq_ok_iff {c : Call} {axis : Int64} {rank position : Nat} :
    c.axisPosition axis rank = .ok position ↔ axisPosition? axis.toInt rank = some position := by
  rw [axisPosition]
  split
  · next heq => simp [heq]
  · next heq => simp [heq, fail, failExecution]

theorem integers_eq_ok_iff {c : Call} {values : List Int64} :
    c.integers t = .ok values ↔ t.integers? = some values := by
  rw [integers]
  split
  · next heq => simp [heq]
  · next heq => simp [heq, fail, failExecution]

theorem sizesOf_eq_ok_iff {c : Call} {type : TensorType} {sizes : List Nat} :
    c.sizesOf type = .ok sizes ↔ type.shape.sizes? = some sizes := by
  rw [sizesOf]
  split
  · next heq => simp [heq]
  · next heq => simp [heq, fail, failExecution]

theorem outputs_parameter_eq_ok_iff :
    (⟨n, "Parameter", args⟩ : Call).outputs erf inputs = .ok outputs ↔
      ∃ t, inputs.get? n.name = some t ∧ outputs = [t] := by
  have hmode : EltwiseMode.ofName? "Parameter" = none := rfl
  have hreduce : ReduceMode.ofName? "Parameter" = none := rfl
  simp only [Call.outputs, hmode, hreduce]
  cases inputs.get? n.name with
  | none => simp [fail, failExecution]
  | some t =>
      simp only [Option.some.injEq, exists_eq_left', Outcome.pure_eq_ok_iff,
        eq_comm (a := outputs)]

theorem outputs_constant_eq_ok_iff :
    (⟨n, "Constant", args⟩ : Call).outputs erf inputs = .ok outputs ↔
      ∃ literal t, n.value = some literal ∧ Tensor.ofLiteral literal = .ok t ∧ outputs = [t] := by
  have hmode : EltwiseMode.ofName? "Constant" = none := rfl
  have hreduce : ReduceMode.ofName? "Constant" = none := rfl
  simp only [Call.outputs, hmode, hreduce]
  cases n.value with
  | none => simp [fail, failExecution]
  | some literal =>
      simp only [Option.some.injEq, exists_and_left, exists_eq_left', Outcome.bind_eq_ok_iff,
        Outcome.pure_eq_ok_iff, eq_comm (a := outputs)]

theorem outputs_result_eq_ok_iff :
    (⟨n, "Result", args⟩ : Call).outputs erf inputs = .ok outputs ↔
      ∃ t, args[0]? = some t ∧ outputs = [t] := by
  have houtputs : (⟨n, "Result", args⟩ : Call).outputs erf inputs =
      (⟨n, "Result", args⟩ : Call).arg 0 >>= fun t => pure [t] := rfl
  simp only [houtputs, Outcome.bind_eq_ok_iff, arg_eq_ok_iff, Outcome.pure_eq_ok_iff,
    eq_comm (a := outputs)]

theorem outputs_eltwise_eq_ok_iff {kind : String} {mode : EltwiseMode}
    (hmode : EltwiseMode.ofName? kind = some mode) :
    (⟨n, kind, args⟩ : Call).outputs erf inputs = .ok outputs ↔ ∃ a b t, args[0]? = some a ∧
      args[1]? = some b ∧ Tensor.eltwise mode a b = .ok t ∧ outputs = [t] := by
  simp only [Call.outputs, hmode, Outcome.bind_eq_ok_iff, arg_eq_ok_iff, Outcome.pure_eq_ok_iff,
    exists_and_left, eq_comm (a := outputs)]

theorem outputs_reduction_eq_ok_iff {kind : String} {mode : ReduceMode}
    (hmode : ReduceMode.ofName? kind = some mode) :
    (⟨n, kind, args⟩ : Call).outputs erf inputs = .ok outputs ↔
      ∃ input axes values positions t, args[0]? = some input ∧ args[1]? = some axes ∧
        axes.integers? = some values ∧
        List.Forall₂ (fun axis position => axisPosition? axis.toInt input.rank = some position)
          values positions ∧
        input.reduce mode (axisSet positions) (n.switch "keep_dims" false) = .ok t ∧
        outputs = [t] := by
  have hnone : EltwiseMode.ofName? kind = none := by
    unfold ReduceMode.ofName? at hmode
    split at hmode <;> first | rfl | cases hmode
  simp only [Call.outputs, hnone, hmode, reduce, Outcome.bind_eq_ok_iff, arg_eq_ok_iff,
    integers_eq_ok_iff, Outcome.mapM_eq_ok_iff, axisPosition_eq_ok_iff, Outcome.pure_eq_ok_iff,
    exists_and_left, eq_comm (a := outputs)]
  constructor
  · rintro ⟨t, ⟨input, hinput, axes, haxes, values, hvalues, positions, hpositions, ht⟩, houtputs⟩
    exact ⟨input, hinput, axes, haxes, values, hvalues, positions, hpositions, t, ht, houtputs⟩
  · rintro ⟨input, hinput, axes, haxes, values, hvalues, positions, hpositions, t, ht, houtputs⟩
    exact ⟨t, ⟨input, hinput, axes, haxes, values, hvalues, positions, hpositions, ht⟩, houtputs⟩

theorem outputs_erf_eq_ok_iff :
    (⟨n, "Erf", args⟩ : Call).outputs erf inputs = .ok outputs ↔
      ∃ a t, args[0]? = some a ∧ a.erf erf = .ok t ∧ outputs = [t] := by
  have houtputs : (⟨n, "Erf", args⟩ : Call).outputs erf inputs =
      (⟨n, "Erf", args⟩ : Call).arg 0 >>= fun a => a.erf erf >>= fun t => pure [t] := rfl
  simp only [houtputs, Outcome.bind_eq_ok_iff, arg_eq_ok_iff, Outcome.pure_eq_ok_iff,
    exists_and_left, eq_comm (a := outputs)]

/-- The settings that a product of graph values has. -/
def productSpec (n : Node) (a b : Tensor) : GemmSpec :=
  { element := .f32
    transposeA := n.switch "transpose_a" false
    transposeB := n.switch "transpose_b" false
    alpha := .one
    beta := .zero
    inputRank := a.rank
    weightRank := b.rank }

theorem outputs_matMul_eq_ok_iff :
    (⟨n, "MatMul", args⟩ : Call).outputs erf inputs = .ok outputs ↔ ∃ a b t, args[0]? = some a ∧
      args[1]? = some b ∧ a.gemm b (productSpec n a b) = .ok t ∧ outputs = [t] := by
  have houtputs : (⟨n, "MatMul", args⟩ : Call).outputs erf inputs =
      ((⟨n, "MatMul", args⟩ : Call).arg 0 >>= fun a => (⟨n, "MatMul", args⟩ : Call).arg 1 >>=
        fun b => a.gemm b (productSpec n a b)) >>= fun t => pure [t] := rfl
  simp only [houtputs, Outcome.bind_eq_ok_iff, arg_eq_ok_iff, Outcome.pure_eq_ok_iff,
    eq_comm (a := outputs)]
  constructor
  · rintro ⟨t, ⟨a, ha, b, hb, ht⟩, houtputs⟩
    exact ⟨a, b, t, ha, hb, ht, houtputs⟩
  · rintro ⟨a, b, t, ha, hb, ht, houtputs⟩
    exact ⟨t, ⟨a, ha, b, hb, ht⟩, houtputs⟩

theorem outputs_fullyConnected_eq_ok_iff :
    (⟨n, "FullyConnected", args⟩ : Call).outputs erf inputs = .ok outputs ↔ ∃ a w t, args[0]? = some a ∧
      args[1]? = some w ∧ Tensor.fullyConnected a w none none = .ok t ∧ outputs = [t] := by
  have houtputs : (⟨n, "FullyConnected", args⟩ : Call).outputs erf inputs =
      (⟨n, "FullyConnected", args⟩ : Call).arg 0 >>= fun a =>
        (⟨n, "FullyConnected", args⟩ : Call).arg 1 >>= fun w =>
          Tensor.fullyConnected a w none none >>= fun t => pure [t] := rfl
  simp only [houtputs, Outcome.bind_eq_ok_iff, arg_eq_ok_iff, Outcome.pure_eq_ok_iff,
    exists_and_left, eq_comm (a := outputs)]

theorem outputs_fullyConnectedCompressed_eq_ok_iff :
    (⟨n, "FullyConnectedCompressed", args⟩ : Call).outputs erf inputs = .ok outputs ↔
      ∃ a w scale t, args[0]? = some a ∧ args[1]? = some w ∧ args[2]? = some scale ∧
        Tensor.fullyConnected a w (some scale) args[3]? = .ok t ∧ outputs = [t] := by
  have houtputs : (⟨n, "FullyConnectedCompressed", args⟩ : Call).outputs erf inputs =
      (⟨n, "FullyConnectedCompressed", args⟩ : Call).arg 0 >>= fun a =>
        (⟨n, "FullyConnectedCompressed", args⟩ : Call).arg 1 >>= fun w =>
          (⟨n, "FullyConnectedCompressed", args⟩ : Call).arg 2 >>= fun scale =>
            Tensor.fullyConnected a w (some scale) args[3]? >>= fun t => pure [t] := rfl
  simp only [houtputs, Outcome.bind_eq_ok_iff, arg_eq_ok_iff, Outcome.pure_eq_ok_iff,
    exists_and_left, eq_comm (a := outputs)]

theorem outputs_split_eq_ok_iff {kind : String} (hkind : kind ∈ ["Split", "VariadicSplit"]) :
    (⟨n, kind, args⟩ : Call).outputs erf inputs = .ok outputs ↔ ∃ input axes values axis position,
      args[0]? = some input ∧ args[1]? = some axes ∧ axes.integers? = some values ∧
      values.head? = some axis ∧ axisPosition? axis.toInt input.rank = some position ∧
      (⟨n, kind, args⟩ : Call).parts input position 0 n.outputs = .ok outputs := by
  have houtputs : (⟨n, kind, args⟩ : Call).outputs erf inputs = (⟨n, kind, args⟩ : Call).split := by
    simp only [List.mem_cons, List.not_mem_nil, or_false] at hkind
    rcases hkind with rfl | rfl <;> rfl
  simp only [houtputs, split, Outcome.bind_eq_ok_iff, arg_eq_ok_iff, integers_eq_ok_iff]
  constructor
  · rintro ⟨input, hinput, axes, haxes, values, hvalues, h⟩
    split at h
    · next axis haxis =>
      obtain ⟨position, hposition, h⟩ := Outcome.bind_eq_ok_iff.1 h
      exact ⟨input, axes, values, axis, position, hinput, haxes, hvalues, haxis,
        axisPosition_eq_ok_iff.1 hposition, h⟩
    · simp [fail, failExecution] at h
  · rintro ⟨input, axes, values, axis, position, hinput, haxes, hvalues, haxis, hposition, h⟩
    refine ⟨input, hinput, axes, haxes, values, hvalues, ?_⟩
    simp only [haxis, Outcome.bind_eq_ok_iff]
    exact ⟨position, axisPosition_eq_ok_iff.2 hposition, h⟩

/-- The order in which the axes of a tensor are evaluated to be transposed. -/
inductive Transposes (args : List Tensor) (rank : Nat) : List Nat → Prop where
  | given {axes : Tensor} {values : List Int64} {order : List Nat} (second : args[1]? = some axes)
      (integers : axes.integers? = some values)
      (positions : List.Forall₂
        (fun axis position => axisPosition? axis.toInt rank = some position) values order) :
      Transposes args rank order
  | reversed (alone : args[1]? = none) : Transposes args rank (List.range rank).reverse

theorem outputs_transpose_eq_ok_iff :
    (⟨n, "Transpose", args⟩ : Call).outputs erf inputs = .ok outputs ↔ ∃ input order t,
      args[0]? = some input ∧ Transposes args input.rank order ∧ input.permute order = .ok t ∧
      outputs = [t] := by
  have houtputs : (⟨n, "Transpose", args⟩ : Call).outputs erf inputs =
      (⟨n, "Transpose", args⟩ : Call).transpose >>= fun t => pure [t] := rfl
  cases haxes : args[1]? with
  | none =>
      simp only [houtputs, transpose, haxes, Outcome.bind_eq_ok_iff, arg_eq_ok_iff,
        Outcome.pure_eq_ok_iff, eq_comm (a := outputs)]
      constructor
      · rintro ⟨t, ⟨input, hinput, order, rfl, ht⟩, houtputs⟩
        exact ⟨input, _, t, hinput, .reversed haxes, ht, houtputs⟩
      · rintro ⟨input, order, t, hinput, horder, ht, houtputs⟩
        cases horder with
        | given second => simp [haxes] at second
        | reversed => exact ⟨t, ⟨input, hinput, _, rfl, ht⟩, houtputs⟩
  | some axes =>
      simp only [houtputs, transpose, haxes, Outcome.bind_eq_ok_iff, arg_eq_ok_iff,
        integers_eq_ok_iff, Outcome.mapM_eq_ok_iff, axisPosition_eq_ok_iff, Outcome.pure_eq_ok_iff,
        eq_comm (a := outputs)]
      constructor
      · rintro ⟨t, ⟨input, hinput, values, hvalues, order, horder, ht⟩, houtputs⟩
        exact ⟨input, order, t, hinput, .given haxes hvalues horder, ht, houtputs⟩
      · rintro ⟨input, order, t, hinput, horder, ht, houtputs⟩
        cases horder with
        | given second integers positions =>
            obtain rfl := Option.some.inj (haxes.symm.trans second)
            exact ⟨t, ⟨input, hinput, _, integers, order, positions, ht⟩, houtputs⟩
        | reversed alone => simp [haxes] at alone

theorem outputs_reshape_eq_ok_iff :
    (⟨n, "Reshape", args⟩ : Call).outputs erf inputs = .ok outputs ↔ ∃ input type sizes t,
      args[0]? = some input ∧ n.outputs[0]? = some type ∧ type.shape.sizes? = some sizes ∧
      input.reshape sizes = .ok t ∧ outputs = [t] := by
  have houtputs : (⟨n, "Reshape", args⟩ : Call).outputs erf inputs =
      (⟨n, "Reshape", args⟩ : Call).arg 0 >>= fun input => Outcome.ofOption n.outputs[0]? >>=
        fun type =>
        (⟨n, "Reshape", args⟩ : Call).sizesOf type >>= fun sizes =>
          input.reshape sizes >>= fun t => pure [t] := rfl
  simp only [houtputs, Outcome.bind_eq_ok_iff, arg_eq_ok_iff, Outcome.ofOption_eq_ok_iff,
    sizesOf_eq_ok_iff, Outcome.pure_eq_ok_iff, exists_and_left, eq_comm (a := outputs)]

theorem outputs_concat_eq_ok_iff :
    (⟨n, "Concat", args⟩ : Call).outputs erf inputs = .ok outputs ↔ ∃ first axis position t,
      args[0]? = some first ∧ n.int? "axis" = some axis ∧
      axisPosition? axis.toInt first.rank = some position ∧ Tensor.concat args position = .ok t ∧
      outputs = [t] := by
  have houtputs : (⟨n, "Concat", args⟩ : Call).outputs erf inputs =
      (⟨n, "Concat", args⟩ : Call).concat >>= fun t => pure [t] := rfl
  cases haxis : n.int? "axis" with
  | none =>
      simp [houtputs, concat, haxis, Outcome.map_eq_ok_iff, Outcome.bind_eq_ok_iff, fail,
        failExecution]
  | some axis =>
      simp only [houtputs, concat, haxis, Outcome.bind_eq_ok_iff, arg_eq_ok_iff,
        axisPosition_eq_ok_iff, Outcome.pure_eq_ok_iff, eq_comm (a := outputs)]
      constructor
      · rintro ⟨t, ⟨first, hfirst, position, hposition, ht⟩, houtputs⟩
        exact ⟨first, axis, position, t, hfirst, rfl, hposition, ht, houtputs⟩
      · rintro ⟨first, other, position, t, hfirst, haxis, hposition, ht, houtputs⟩
        obtain rfl := Option.some.inj haxis
        exact ⟨t, ⟨first, hfirst, position, hposition, ht⟩, houtputs⟩

end Call

/-- Evaluates nodes in order. -/
def run (erf : ErrorFunction) (inputs : NameMap Tensor) (nodes : List Node) :
    Outcome EngineError Progress :=
  nodes.foldlM (step erf inputs) ⟨[], .empty⟩

/-- A node that is evaluated on values that are there: its call, and its outputs. -/
structure Evaluated (erf : ErrorFunction) (inputs : NameMap Tensor) (s : Progress) (n : Node)
    (kind : OpKind) (args outputs : List Tensor) : Prop where
  known : n.kind? = some kind
  reads : List.Forall₂ (fun e arg => s.read? e = some arg) n.inputs args
  computes : (⟨n, kind.name, args⟩ : Call).outputs erf inputs = .ok outputs

/-- A node is called with the values that its edges read. -/
theorem exists_of_call_eq_ok {c : Call} (h : s.call n = .ok c) : ∃ kind args, n.kind? = some kind ∧
    List.Forall₂ (fun e arg => s.read? e = some arg) n.inputs args ∧ c = ⟨n, kind.name, args⟩ := by
  obtain ⟨kind, hkind, h⟩ := Outcome.bind_eq_ok_iff.1 h
  obtain ⟨args, hargs, h⟩ := Outcome.bind_eq_ok_iff.1 h
  refine ⟨kind, args, Outcome.ofOption_eq_ok_iff.1 hkind, ?_, (Outcome.pure_eq_ok_iff.1 h).symm⟩
  refine List.Forall₂.imp (fun (e : Edge) arg hread => ?_) (Outcome.mapM_eq_ok_iff.1 hargs)
  split at hread
  · next t ht => rw [ht, Except.ok.inj hread]
  · simp [failExecution] at hread

/-- Evaluating one more node adds its outputs, and its value under its name when it is a result. -/
theorem exists_of_step_eq_ok {next : Progress} (h : step erf inputs s n = .ok next) :
    ∃ kind args outputs, Evaluated erf inputs s n kind args outputs ∧
      next.values = s.values ++ [outputs] ∧
      next.results = match kind.name, outputs with
        | "Result", [value] => s.results.insert n.name value
        | _, _ => s.results := by
  obtain ⟨c, hc, h⟩ := Outcome.bind_eq_ok_iff.1 h
  obtain ⟨outputs, houtputs, h⟩ := Outcome.bind_eq_ok_iff.1 h
  obtain rfl := Outcome.pure_eq_ok_iff.1 h
  obtain ⟨kind, args, hkind, hargs, rfl⟩ := exists_of_call_eq_ok hc
  exact ⟨kind, args, outputs, ⟨hkind, hargs, houtputs⟩, rfl, rfl⟩

theorem run_append_singleton_eq_ok_iff {nodes : List Node} :
    run erf inputs (nodes ++ [n]) = .ok s ↔
      ∃ before, run erf inputs nodes = .ok before ∧ step erf inputs before n = .ok s := by
  rw [run, Outcome.foldlM_append_eq_ok_iff]
  simp only [List.foldlM_cons, List.foldlM_nil, bind_pure]
  rfl

theorem read?_of_values_eq {before s : Progress} {outputs : List Tensor}
    (h : s.values = before.values ++ [outputs]) {e : Edge} {t : Tensor}
    (ht : before.read? e = some t) :
    s.read? e = some t := by
  rw [Progress.read?] at ht ⊢
  obtain ⟨outs, houts, ht⟩ := Option.bind_eq_some_iff.1 ht
  have hlt := (List.getElem?_eq_some_iff.1 houts).1
  rw [h, List.getElem?_append_left hlt, houts]
  exact ht

/-- Every node was evaluated on outputs of nodes before it. -/
theorem evaluated_of_run (h : run erf inputs nodes = .ok s) :
    s.values.length = nodes.length ∧ ∀ (i : Nat) (n : Node), nodes[i]? = some n →
      ∃ kind args outputs, s.values[i]? = some outputs ∧
        Evaluated erf inputs s n kind args outputs := by
  induction nodes using List.reverseRecOn generalizing s with
  | nil =>
      cases h
      exact ⟨rfl, by simp⟩
  | append_singleton nodes last ih =>
      obtain ⟨before, hbefore, hstep⟩ := run_append_singleton_eq_ok_iff.1 h
      obtain ⟨hlength, hall⟩ := ih hbefore
      obtain ⟨kind, args, outputs, hlast, hvalues, -⟩ := exists_of_step_eq_ok hstep
      -- what was read before is still there
      have hkept : ∀ {n : Node} {kind : OpKind} {args outputs : List Tensor},
          Evaluated erf inputs before n kind args outputs →
            Evaluated erf inputs s n kind args outputs := by
        intro n kind args outputs hn
        refine ⟨hn.known, ?_, hn.computes⟩
        exact List.Forall₂.imp (fun (e : Edge) arg hread => read?_of_values_eq hvalues hread)
          hn.reads
      refine ⟨by rw [hvalues, List.length_append, List.length_append, hlength]; rfl, ?_⟩
      intro i n hn
      rcases getElem?_append_singleton_cases hn with ⟨hlt, hn⟩ | ⟨rfl, rfl⟩
      · obtain ⟨kind, args, outputs, houtputs, hevaluated⟩ := hall i n hn
        refine ⟨kind, args, outputs, ?_, hkept hevaluated⟩
        rw [hvalues, List.getElem?_append_left (hlength ▸ hlt), houtputs]
      · exact ⟨kind, args, outputs, by simp [hvalues, ← hlength], hkept hlast⟩

/-- The value of a result node stands under its name, when no other result node has the name. -/
theorem get?_results (h : run erf inputs nodes = .ok s) {i : Nat} (hn : nodes[i]? = some n)
    {kind : OpKind} (hkind : n.kind? = some kind) (hname : kind.name = "Result") {t : Tensor}
    (ht : s.values[i]? = some [t])
    (hunique : ∀ (j : Nat) (m : Node) (other : OpKind), nodes[j]? = some m → m.kind? = some other →
      other.name = "Result" → m.name = n.name → j = i) : s.results.get? n.name = some t := by
  induction nodes using List.reverseRecOn generalizing s with
  | nil => simp at hn
  | append_singleton nodes last ih =>
      obtain ⟨before, hbefore, hstep⟩ := run_append_singleton_eq_ok_iff.1 h
      obtain ⟨hlength, -⟩ := evaluated_of_run hbefore
      obtain ⟨other, args, outputs, hlast, hvalues, hresults⟩ := exists_of_step_eq_ok hstep
      rcases getElem?_append_singleton_cases hn with ⟨hlt, hn⟩ | ⟨rfl, rfl⟩
      · rw [hvalues, List.getElem?_append_left (hlength ▸ hlt)] at ht
        have hold : before.results.get? n.name = some t := by
          apply ih hbefore hn ht
          intro j m other hm
          apply hunique j m other
          rw [List.getElem?_append_left (List.getElem?_eq_some_iff.1 hm).1, hm]
        rw [hresults]
        split
        · next value hresult =>
          have hne : n.name ≠ last.name := by
            intro heq
            have := hunique nodes.length last other (by simp) hlast.known hresult heq.symm
            omega
          rw [NameMap.get?_insert, if_neg hne, hold]
        · exact hold
      · obtain rfl : outputs = [t] := by simpa [hvalues, ← hlength] using ht
        obtain rfl := Option.some.inj (hlast.known.symm.trans hkind)
        rw [hresults, hname]
        simp only [NameMap.get?_insert, if_true]

end Evaluation

namespace Graph

open Evaluation

variable {g : Graph} {erf : ErrorFunction} {inputs results : NameMap Tensor} {s : Progress}

theorem evaluate_eq_ok_iff :
    g.evaluate erf inputs = .ok results ↔
      ∃ s, run erf inputs g.nodes = .ok s ∧ s.results = results := by
  simp only [evaluate, Outcome.bind_eq_ok_iff, Outcome.pure_eq_ok_iff]
  rfl

/-- Every value of a node is of the type that is declared for it. -/
def Conforms (g : Graph) (values : List (List Tensor)) : Prop :=
  ∀ node ∈ g.nodes.zip values, ∀ output ∈ node.1.outputs.zip node.2,
    output.2.matchesType output.1 = true

instance (g : Graph) (values : List (List Tensor)) : Decidable (g.Conforms values) :=
  inferInstanceAs (Decidable (∀ node ∈ g.nodes.zip values, ∀ output ∈ node.1.outputs.zip node.2,
    output.2.matchesType output.1 = true))

theorem Conforms.value (hc : g.Conforms s.values) {i k : Nat} {n : Node} {outputs : List Tensor}
    (hn : g.nodes[i]? = some n) (houtputs : s.values[i]? = some outputs) {t : Tensor}
    {type : TensorType} (ht : outputs[k]? = some t) (htype : n.outputs[k]? = some type) :
    t.matchesType type = true := by
  have hnode : (g.nodes.zip s.values)[i]? = some (n, outputs) :=
    List.getElem?_zip_eq_some.2 ⟨hn, houtputs⟩
  have houtput : (n.outputs.zip outputs)[k]? = some (type, t) :=
    List.getElem?_zip_eq_some.2 ⟨htype, ht⟩
  exact hc _ (List.mem_of_getElem? hnode) _ (List.mem_of_getElem? houtput)

/-- The inputs of a node are of its input types. -/
theorem Conforms.arg (hc : g.Conforms s.values) (hg : g.Consistent) {i a : Nat} {n : Node}
    (hn : g.nodes[i]? = some n) {kind : OpKind} {args outputs : List Tensor}
    (hevaluated : Evaluated erf inputs s n kind args outputs) {arg : Tensor} {type : TensorType}
    (harg : args[a]? = some arg) (htype : n.inputTypes[a]? = some type) :
    arg.matchesType type = true := by
  obtain ⟨e, he, hread⟩ := exists_left_of_forall₂ hevaluated.reads harg
  obtain ⟨type', htype', -, producer, hproducer, houtput⟩ := hg.leads_of_getElem? hn he
  obtain rfl := Option.some.inj (htype.symm.trans htype')
  obtain ⟨outs, houts, harg⟩ := Option.bind_eq_some_iff.1 hread
  exact hc.value hproducer houts harg houtput

end Graph

end TensorLowering
