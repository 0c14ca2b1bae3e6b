import TensorLowering.Proofs.Outcome
import TensorLowering.Proofs.Lowering.Build

/-!
# Resolved inputs

What an edge refers to, and which primitive it leads to. In a build the identity map decides; a
support query takes the identity itself.
-/

namespace TensorLowering

namespace Edge

variable {e : Edge} {g : Graph} {producer consumer : Node} {ids : IdentityMap}
  {newShapeInference : Bool} {source : Source}

/-- What an edge refers to: the producer, or its output under an identity of its own. -/
theorem target_eq_ok_iff :
    e.target producer newShapeInference = .ok source ↔
      ∃ identity, producer.identity = .ok identity ∧
        source = if producer.hasOutputIdentities newShapeInference then
          ⟨identity ++ outputSuffix e.output, 0⟩ else ⟨identity, e.output⟩ := by
  simp only [target, Outcome.bind_eq_ok_iff, Outcome.pure_eq_ok_iff, eq_comm (b := source)]

/-- In a build an edge leads to the primitive that the identity map has for what it refers to. -/
theorem resolve_eq_ok_iff :
    e.resolve g consumer ids newShapeInference false = .ok source ↔
      ∃ producer target, g.node? e.node = some producer ∧
        e.target producer newShapeInference = .ok target ∧
        ids.get? target.id = some source.id ∧ source.output = target.output := by
  simp only [resolve, Outcome.bind_eq_ok_iff, Outcome.ofOption_eq_ok_iff]
  constructor
  · rintro ⟨producer, hproducer, target, htarget, h⟩
    refine ⟨producer, target, hproducer, htarget, ?_⟩
    cases hid : ids.get? target.id with
    | none => simp [hid] at h
    | some id =>
        simp only [hid, Bool.false_eq_true, if_false, Outcome.pure_eq_ok_iff] at h
        subst h
        exact ⟨rfl, rfl⟩
  · rintro ⟨producer, target, hproducer, htarget, hid, houtput⟩
    refine ⟨producer, hproducer, target, htarget, ?_⟩
    simp only [hid, Bool.false_eq_true, if_false, Outcome.pure_eq_ok_iff, ← houtput]

/-- In a support query an edge leads to what it refers to. -/
theorem resolve_query_eq_ok_iff :
    e.resolve g consumer ids newShapeInference true = .ok source ↔
      ∃ producer, g.node? e.node = some producer ∧
        e.target producer newShapeInference = .ok source := by
  simp only [resolve, Outcome.bind_eq_ok_iff, Outcome.ofOption_eq_ok_iff, if_true,
    Outcome.pure_eq_ok_iff]
  constructor
  · rintro ⟨producer, hproducer, _, htarget, rfl⟩
    exact ⟨producer, hproducer, htarget⟩
  · rintro ⟨producer, hproducer, htarget⟩
    exact ⟨producer, hproducer, source, htarget, rfl⟩

end Edge

namespace BuildContext

variable {ctx : BuildContext} {n : Node} {ids : IdentityMap} {sources : List Source}

/-- The inputs of a node are resolved edge by edge. -/
theorem inputs_eq_ok_iff :
    ctx.inputs ids n = .ok sources ↔
      List.Forall₂ (fun e source =>
        e.resolve ctx.graph n ids ctx.newShapeInference ctx.query = .ok source) n.inputs sources :=
  Outcome.mapM_eq_ok_iff

theorem length_inputs (h : ctx.inputs ids n = .ok sources) : sources.length = n.inputs.length :=
  (inputs_eq_ok_iff.1 h).length_eq.symm

/-- Every source comes from an edge. -/
theorem exists_edge (h : ctx.inputs ids n = .ok sources) {source : Source} (hs : source ∈ sources) :
    ∃ e ∈ n.inputs, e.resolve ctx.graph n ids ctx.newShapeInference ctx.query = .ok source := by
  obtain ⟨i, hi⟩ := List.mem_iff_getElem?.1 hs
  obtain ⟨hlt, rfl⟩ := List.getElem?_eq_some_iff.1 hi
  have hall := inputs_eq_ok_iff.1 h
  have hlt' : i < n.inputs.length := hall.length_eq ▸ hlt
  exact ⟨n.inputs[i], List.getElem_mem hlt', hall.get hlt' hlt⟩

end BuildContext

end TensorLowering
