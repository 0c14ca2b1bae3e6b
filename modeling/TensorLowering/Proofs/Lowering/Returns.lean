import TensorLowering.Proofs.Graph.ConstantPath
import TensorLowering.Proofs.Lowering.Resolution
import TensorLowering.Proofs.Lowering.Rules
import TensorLowering.Proofs.Returns

/-!
# Builds that return

A part of a build returns when it ends with a value or an error from every state. Adding a primitive
returns as soon as the node has a kind, so a rule returns when its emission does; and what rules look
up for a node is there when the graph provides for the node.

## Main statements

* `Build.returns_ofEmission`: a rule returns when its emission does.
* `BuildContext.Provides`: what rules look up for a node.
-/

namespace TensorLowering

open Outcome

namespace Build

variable {α β : Type} {x : Build α}

/-- A part of a build ends with a value or with an error, whatever state it starts from. -/
def Returns (x : Build α) : Prop := ∀ s, Outcome.Returns (runFrom x s).1

theorem returns_pure (a : α) : Returns (pure a) := fun _ => returns_ok a

theorem returns_lift {x : Outcome LoweringError α} (h : Outcome.Returns x) : Returns (liftM x) := by
  intro s
  rw [runFrom_lift]
  exact h

theorem returns_get : Returns (get : Build BuildState) := fun s => returns_ok s

theorem returns_set (next : BuildState) : Returns (set next : Build Unit) := fun _ => returns_ok ()

theorem returns_throw (cause : LoweringError) : Returns (throw (.error cause) : Build α) :=
  fun _ => returns_fail cause

namespace Returns

/-- Two steps in sequence return when the first does, and the second does on what the first can end
with. -/
theorem bind {f : α → Build β} (h : Returns x)
    (hf : ∀ s a mid, Ends x s a mid → Returns (f a)) : Returns (x >>= f) := by
  intro s
  have hx := h s
  rw [runFrom_bind]
  rcases hrun : runFrom x s with ⟨fault | a, mid⟩
  · rw [hrun] at hx
    exact hx.error
  · exact hf s a mid hrun mid

theorem forM {f : α → Build Unit} {xs : List α} (h : ∀ a ∈ xs, Returns (f a)) :
    Returns (xs.forM f) := by
  induction xs with
  | nil => exact returns_pure ()
  | cons a xs ih =>
      obtain ⟨ha, hxs⟩ := List.forall_mem_cons.1 h
      exact ha.bind fun _ _ _ _ => ih hxs

end Returns

end Build

namespace Node

variable {α : Type} {n : Node} (hkind : ∃ kind, n.kind? = some kind)

include hkind

theorem returns_label : Returns n.label := by
  obtain ⟨kind, hkind⟩ := hkind
  rw [label_eq_ok_iff.2 ⟨kind, hkind, rfl⟩]
  exact returns_ok _

theorem returns_identity : Returns n.identity := by
  obtain ⟨kind, hkind⟩ := hkind
  rw [identity_eq_ok_iff.2 ⟨kind, hkind, rfl⟩]
  exact returns_ok _

theorem returns_kindName : Returns n.kindName := by
  obtain ⟨kind, hkind⟩ := hkind
  rw [kindName_eq_ok_iff.2 ⟨kind, hkind, rfl⟩]
  exact returns_ok _

theorem returns_failParameter (fault : ParameterFault) :
    Returns (n.failParameter fault : Outcome LoweringError α) :=
  (returns_label hkind).bind fun _ _ => returns_fail _

theorem returns_failParameter_bind {β : Type} (fault : ParameterFault)
    (f : α → Outcome LoweringError β) : Returns (n.failParameter fault >>= f) :=
  (returns_failParameter hkind fault).bind fun _ h => absurd h failParameter_ne_ok

theorem returns_failUnsupported : Returns (n.failUnsupported : Outcome LoweringError α) :=
  (returns_label hkind).bind fun _ _ => returns_fail _

theorem returns_checkArity (accepted : List Nat) : Returns (n.checkArity accepted) := by
  rw [checkArity]
  split
  · exact returns_pure ()
  · exact (returns_label hkind).bind fun _ _ => returns_fail _

theorem returns_axisPosition (axis : Int64) (rank : Nat) : Returns (n.axisPosition axis rank) := by
  rw [axisPosition]
  split
  · exact returns_pure _
  · exact returns_failParameter hkind _

theorem returns_staticSizes (shape : Shape) (what : String) :
    Returns (n.staticSizes shape what) := by
  rw [staticSizes]
  split
  · exact returns_pure _
  · exact returns_failParameter hkind _

end Node

/-- An emission returns: it is computed without an abort, and so is every primitive in it. -/
structure Emission.Returns (x : Outcome LoweringError Emission) : Prop where
  computed : Outcome.Returns x
  steps : ∀ emission, x = .ok emission → ∀ step ∈ emission, Outcome.Returns step

namespace Emission

variable {α : Type} {x : Outcome LoweringError α} {emission : Outcome LoweringError Emission}

theorem returns_pure {steps : Emission} (h : ∀ step ∈ steps, Outcome.Returns step) :
    Emission.Returns (pure steps) := by
  refine ⟨Outcome.returns_pure steps, fun emission hemission => ?_⟩
  obtain rfl := Outcome.pure_eq_ok_iff.1 hemission
  exact h

theorem returns_single (p : Primitive) : Emission.Returns (pure [.ok p]) := by
  apply returns_pure
  intro step hstep
  obtain rfl := List.mem_singleton.1 hstep
  exact returns_ok p

/-- An emission that ends with an error has no primitives. -/
theorem returns_of_ne_ok (h : Outcome.Returns emission) (hne : ∀ steps, emission ≠ .ok steps) :
    Emission.Returns emission :=
  ⟨h, fun steps hsteps => absurd hsteps (hne steps)⟩

variable {n : Node} (hkind : ∃ kind, n.kind? = some kind)

include hkind in
theorem returns_failParameter (fault : ParameterFault) :
    Emission.Returns (n.failParameter fault) :=
  returns_of_ne_ok (Node.returns_failParameter hkind fault) fun _ => Node.failParameter_ne_ok

include hkind in
theorem returns_failUnsupported :
    Emission.Returns n.failUnsupported :=
  returns_of_ne_ok (Node.returns_failUnsupported hkind) fun _ => Node.failUnsupported_ne_ok

namespace Returns

theorem ite {c : Prop} [Decidable c] {other : Outcome LoweringError Emission}
    (h : c → Emission.Returns emission) (h' : ¬ c → Emission.Returns other) :
    Emission.Returns (if c then emission else other) := by
  split
  · next hc => exact h hc
  · next hc => exact h' hc

theorem bind {f : α → Outcome LoweringError Emission} (h : Outcome.Returns x)
    (hf : ∀ a, x = .ok a → Emission.Returns (f a)) : Emission.Returns (x >>= f) := by
  refine ⟨h.bind fun a ha => (hf a ha).computed, fun emission hemission => ?_⟩
  obtain ⟨a, ha, hfa⟩ := Outcome.bind_eq_ok_iff.1 hemission
  exact (hf a ha).steps emission hfa

end Returns

theorem returns_fail_bind (cause : LoweringError) (f : α → Outcome LoweringError Emission) :
    Emission.Returns (Outcome.fail cause >>= f) :=
  .bind (returns_fail cause) fun _ h => nomatch h

include hkind in
/-- What stands behind the check of the arity may rely on it. -/
theorem returns_checkArity_bind {accepted : List Nat} {f : Unit → Outcome LoweringError Emission}
    (h : n.inputs.length ∈ accepted → Emission.Returns (f ())) :
    Emission.Returns (n.checkArity accepted >>= f) :=
  .bind (Node.returns_checkArity hkind accepted) fun _ harity =>
    h (Node.checkArity_eq_ok_iff.1 harity)

include hkind in
theorem returns_failParameter_bind (fault : ParameterFault)
    (f : α → Outcome LoweringError Emission) : Emission.Returns (n.failParameter fault >>= f) :=
  .bind (Node.returns_failParameter hkind fault) fun _ h => absurd h Node.failParameter_ne_ok

end Emission

namespace Build

variable {ctx : BuildContext} {n : Node} (hkind : ∃ kind, n.kind? = some kind)

include hkind

theorem returns_add (p : Primitive) (aliases : List String) :
    Returns (ctx.add n p aliases) := by
  refine (returns_lift (Node.returns_label hkind)).bind fun _ label _ _ => ?_
  refine (returns_lift (Node.returns_identity hkind)).bind fun _ identity _ _ => ?_
  refine returns_get.bind fun _ s _ _ => ?_
  refine (returns_set _).bind fun _ _ _ _ => ?_
  split
  · exact returns_pure ()
  · exact returns_throw _

/-- A rule returns when its emission does. -/
theorem returns_ofEmission
    {emit : BuildContext → IdentityMap → Node → Outcome LoweringError Emission}
    (h : ∀ ids, Emission.Returns (emit ctx ids n)) : Returns (Rule.ofEmission emit ctx n) := by
  refine returns_get.bind fun _ s _ _ => ?_
  refine (returns_lift (h s.ids).computed).bind fun _ emission _ hemission => ?_
  obtain ⟨hemission, -⟩ := ends_lift_iff.1 hemission
  refine Returns.forM fun step hstep => ?_
  refine (returns_lift ((h s.ids).steps emission hemission step hstep)).bind fun _ p _ _ => ?_
  exact returns_add hkind p []

end Build

/-- The graph of a build provides what rules look up for a node. -/
structure BuildContext.Provides (ctx : BuildContext) (n : Node) : Prop where
  kind : ∃ kind, n.kind? = some kind
  output : ∃ type, n.outputs[0]? = some type
  types : n.inputTypes.length = n.inputs.length
  producers : ∀ e ∈ n.inputs, ∃ producer kind,
    ctx.graph.node? e.node = some producer ∧ producer.kind? = some kind
  paths : ∀ e ∈ n.inputs, ∃ answer, ctx.graph.isOnConstantPath? e.node = some answer
  parts : n.isSplit = true → ∀ input ∈ n.inputTypes.head?, ∀ output ∈ n.outputs,
    output.shape.rank = input.shape.rank

namespace BuildContext.Provides

variable {ctx : BuildContext} {n : Node} (h : ctx.Provides n)

include h

theorem returns_outputType : Returns (n.outputType 0) := returns_ofOption h.output

theorem returns_inputType {input : Nat} (hinput : input < n.inputs.length) :
    Returns (n.inputType input) :=
  returns_ofOption ⟨_, List.getElem?_eq_getElem (h.types ▸ hinput)⟩

/-- The inputs of a node are resolved, or one of them is not known. -/
theorem returns_inputs (ids : IdentityMap) : Returns (ctx.inputs ids n) := by
  refine Returns.mapM fun e he => ?_
  obtain ⟨producer, kind, hproducer, hkind⟩ := h.producers e he
  refine returns_ofOption_bind hproducer ?_
  refine ((Node.returns_identity ⟨kind, hkind⟩).bind fun _ _ => returns_pure _).bind fun target _ => ?_
  refine Returns.ite (fun _ => returns_pure _) fun _ => ?_
  split
  · exact returns_pure _
  · exact returns_fail _

theorem returns_constantInput (input : Nat) : Returns (ctx.constantInput n input) := by
  rw [BuildContext.constantInput]
  refine Returns.ite (fun _ => (Node.returns_label h.kind).bind fun _ _ => returns_fail_bind _ _) ?_
  intro hinput
  rw [not_le] at hinput
  obtain ⟨producer, producerKind, hproducer, hproducerKind⟩ := h.producers _ (List.getElem_mem hinput)
  have hfound : ctx.graph.producer? n input = some producer := by
    rw [Graph.producer?, List.getElem?_eq_getElem hinput]
    exact hproducer
  refine returns_ofOption_bind hfound ?_
  refine Returns.ite (fun _ => ?_) fun _ => ?_
  · exact returns_ofOption_bind hproducerKind (Node.returns_failParameter_bind h.kind _ _)
  · split
    · exact returns_pure _
    · exact Node.returns_failParameter h.kind _

theorem returns_integerInput (input : Nat) (fault : ParameterFault) :
    Returns (ctx.integerInput n input fault) := by
  refine (h.returns_constantInput input).bind fun literal _ => ?_
  split
  · exact returns_pure _
  · exact Node.returns_failParameter h.kind _

/-- An input that the node has can be tested for being computable from constants. -/
theorem returns_checkConstantPath {input : Nat} (hinput : input < n.inputs.length) (what : String) :
    Returns (Rule.checkConstantPath ctx n input what) := by
  refine returns_ofOption_bind (List.getElem?_eq_getElem hinput) ?_
  refine (returns_ofOption (h.paths _ (List.getElem_mem hinput))).bind fun answer _ => ?_
  exact Returns.ite (fun _ => returns_pure ()) fun _ => Node.returns_failParameter h.kind _

end BuildContext.Provides

end TensorLowering
