import TensorLowering.Proofs.Lowering.History
import TensorLowering.Proofs.Program.Compilation

/-!
# Lowered topologies are in dependency order

Whatever the edges of a graph look like, a node can only read what was lowered before it, because
its inputs are looked up in the identity map and the identity map only leads to primitives that are
already there. So a lowered topology can be scheduled, and compiling it can only fail for the
reasons that `CompileFault` lists.

## Implementation notes

`BuildState.Grounded` is the invariant. It is kept by every rule because what a rule emits reads
resolved sources or what it emitted before (`Emits.readsBack`).
-/

namespace TensorLowering

/-- Primitives that read what is in front of them can be put behind others. -/
theorem InOrder.append {ps qs : List Primitive} (h : InOrder ps)
    (hqs : ∀ i q, qs[i]? = some q → ∀ s ∈ q.inputs,
      s.id ∈ ps.map Primitive.id ∨ s.id ∈ (qs.take i).map Primitive.id) :
    InOrder (ps ++ qs) := by
  intro i p hp s hs
  rcases Nat.lt_or_ge i ps.length with hlt | hge
  · rw [List.getElem?_append_left hlt] at hp
    rw [List.take_append_of_le_length (Nat.le_of_lt hlt)]
    exact h i p hp s hs
  · rw [List.getElem?_append_right hge] at hp
    rw [List.take_append, List.take_of_length_le hge, List.map_append, List.mem_append]
    exact hqs _ p hp s hs

/-- A build in which the identity map leads to primitives, and primitives read earlier ones. -/
structure BuildState.Grounded (s : BuildState) : Prop where
  noted : ∀ key id, s.ids.get? key = some id → id ∈ s.topology.ids
  ordered : InOrder s.topology.primitives

theorem BuildState.grounded_empty : BuildState.empty.Grounded := by
  constructor
  · intro key id h
    simp [BuildState.empty] at h
  · intro i p hp
    simp [BuildState.empty, Topology.empty] at hp

namespace Lowerer

variable {l : Lowerer} {g : Graph} {options : BuildOptions} {lowered : Lowered} {ctx : BuildContext}
  {n : Node} {s s' : BuildState} {ps : List Primitive}

/-- In a grounded build the inputs of a node are resolved to primitives. -/
theorem sources_grounded (hs : s.Grounded) (hquery : ctx.query = false) {sources : List Source}
    (hsources : ctx.inputs s.ids n = .ok sources) :
    ∀ source ∈ sources, source.id ∈ s.topology.ids := by
  intro source hsource
  obtain ⟨e, -, he⟩ := BuildContext.exists_edge hsources hsource
  rw [hquery] at he
  obtain ⟨_, _, -, -, hid, -⟩ := Edge.resolve_eq_ok_iff.1 he
  exact hs.noted _ _ hid

/-- Lowering a node keeps a build grounded. -/
theorem Lowers.grounded (h : l.Lowers ctx n s ps s') (hquery : ctx.query = false)
    (hs : s.Grounded) : s'.Grounded := by
  obtain @⟨label, identity, r, sources, -, -, -, hsources, hemits, hadds⟩ := h
  have hgrounded := sources_grounded hs hquery hsources
  have hids : s'.topology.ids = s.topology.ids ++ ps.map Primitive.id := by
    rw [Topology.ids, hadds.primitives_eq, List.map_append, List.map_map]
    rfl
  constructor
  · intro key id hkey
    rw [hids, List.mem_append]
    rw [hadds.ids_eq, IdentityMap.get?_noteAll] at hkey
    split at hkey
    · cases hlast : (ps.map Primitive.id).getLast? with
      | none =>
          rw [hlast] at hkey
          exact .inl (hs.noted _ _ hkey)
      | some last =>
          rw [hlast] at hkey
          obtain rfl := Option.some.inj hkey
          exact .inr (List.mem_of_getLast? hlast)
    · split at hkey
      · next hmem =>
        obtain rfl := Option.some.inj hkey
        exact .inr hmem
      · exact .inl (hs.noted _ _ hkey)
  · rw [hadds.primitives_eq]
    apply hs.ordered.append
    intro i q hq source hsource
    rw [List.getElem?_map, Option.map_eq_some_iff] at hq
    obtain ⟨p, hp, rfl⟩ := hq
    rcases hemits.readsBack i p hp source hsource with hown | ⟨-, hback⟩
    · exact .inl (hgrounded source hown)
    · rw [← List.map_take, List.map_map]
      exact .inr hback

/-- Every state in front of a node is grounded. -/
theorem grounded_stateBefore (h : l.lower g options = .ok lowered)
    (hregistry : l.registry = .standard) {i : Nat} (hi : i ≤ g.size) :
    (l.stateBefore g options i).Grounded :=
  stateBefore_induction (P := fun _ s => s.Grounded) h hregistry BuildState.grounded_empty
    (fun _ _ _ _ hlowers hs => hlowers.grounded rfl hs) hi

/-- Each primitive of a lowered topology comes after everything that it reads. -/
theorem inOrder_of_lower (h : l.lower g options = .ok lowered)
    (hregistry : l.registry = .standard) : InOrder lowered.topology.primitives := by
  obtain ⟨-, rfl⟩ := lowered_eq h
  exact (grounded_stateBefore h hregistry (Nat.le_refl _)).ordered

end Lowerer

/-- Under the legacy inference an edge never refers to a second output: an output of a node that has
several is known under an identity of its own. -/
theorem Graph.Leads.output_target_eq_zero {g : Graph} {i : Nat} {e : Edge} {type : TensorType}
    (h : g.Leads i e type) {producer : Node} (hproducer : g.node? e.node = some producer)
    {source : Source} (htarget : e.target producer false = .ok source) : source.output = 0 := by
  obtain ⟨-, producer', hproducer', houtput⟩ := h
  obtain rfl := Option.some.inj (hproducer.symm.trans hproducer')
  obtain ⟨identity, -, rfl⟩ := Edge.target_eq_ok_iff.1 htarget
  have hlt : e.output < producer.outputs.length := (List.getElem?_eq_some_iff.1 houtput).1
  by_cases hseveral : producer.hasOutputIdentities false
  · simp [hseveral]
  · have hone : ¬ 1 < producer.outputs.length := by
      simpa [Node.hasOutputIdentities] using hseveral
    simp only [hseveral, Bool.false_eq_true, if_false]
    omega

/-- Primitives that only read first outputs. -/
def FirstOutputs (ps : List Primitive) : Prop := ∀ p ∈ ps, ∀ s ∈ p.inputs, s.output = 0

namespace Lowerer

variable {l : Lowerer} {g : Graph} {options : BuildOptions} {lowered : Lowered}

/-- Under the legacy inference the primitives of an assembled graph only read first outputs. -/
theorem firstOutputs_of_lower (h : l.lower g options = .ok lowered)
    (hregistry : l.registry = .standard) (hg : g.Consistent)
    (hlegacy : lowered.newShapeInference = false) : FirstOutputs lowered.topology.primitives := by
  obtain ⟨-, hlowered⟩ := lowered_eq h
  have hregime : l.regime g options = false := by
    rw [hlowered] at hlegacy
    exact hlegacy
  rw [hlowered]
  apply stateBefore_induction (P := fun _ s => FirstOutputs s.topology.primitives) h hregistry
    (i := g.size)
  · intro p hp
    simp [BuildState.empty, Topology.empty] at hp
  · intro i n ps hn hlowers hs
    obtain ⟨-, -, -, hsources, hemits, hadds⟩ := hlowers
    intro q hq source hsource
    rw [hadds.primitives_eq, List.mem_append] at hq
    rcases hq with hold | hnew
    · exact hs q hold source hsource
    · obtain ⟨p, hp, rfl⟩ := List.mem_map.1 hnew
      obtain ⟨k, hk⟩ := List.mem_iff_getElem?.1 hp
      rcases hemits.readsBack k p hk source hsource with hown | ⟨hzero, -⟩
      · obtain ⟨e, he, hresolve⟩ := BuildContext.exists_edge hsources hown
        obtain ⟨producer, target, hproducer, htarget, -, houtput⟩ :=
          Edge.resolve_eq_ok_iff.1 hresolve
        obtain ⟨type, hleads⟩ := hg.leads_of_mem hn he
        change e.target producer (l.regime g options) = .ok target at htarget
        rw [hregime] at htarget
        rw [houtput]
        exact hleads.output_target_eq_zero hproducer htarget
      · exact hzero
  · exact Nat.le_refl g.size

/-- A lowered topology is well-founded: every primitive reads earlier ones, so it is valid and has a
schedule, and for an assembled graph under the legacy inference only first outputs are read.
Compiling it can only fail because of a kernel, a constant that is no tensor, or a second output. -/
theorem wellFounded_of_lower (hregistry : l.registry = .standard)
    (h : l.lower g options = .ok lowered) :
    InOrder lowered.topology.primitives ∧
      lowered.topology.validate = .ok () ∧
      (∃ order, lowered.topology.schedule = .ok order) ∧
      (∀ requests, Graph.ofRequests requests = .ok g → lowered.newShapeInference = false →
        FirstOutputs lowered.topology.primitives) ∧
      (∀ fault, Program.compile lowered.topology = .error fault →
        CompileFault lowered.topology.primitives fault) := by
  have horder := inOrder_of_lower h hregistry
  obtain ⟨order, hschedule⟩ := Topology.schedule_of_inOrder horder
  refine ⟨horder, ?_, ⟨order, hschedule⟩, ?_, ?_⟩
  · exact (Topology.schedule_eq_ok_iff.1 hschedule).1
  · intro requests hrequests hlegacy
    exact firstOutputs_of_lower h hregistry (Graph.consistent_of_ofRequests hrequests) hlegacy
  · intro fault hfault
    exact Program.compileFault_of_compile horder hfault

/-- The product of two matrices is lowered under the legacy inference to primitives in order. -/
theorem inOrder_product : ∃ lowered, plain.lower .product {} = .ok lowered ∧
    InOrder lowered.topology.primitives ∧ FirstOutputs lowered.topology.primitives := by
  obtain ⟨lowered, h⟩ := exists_lowered_product
  obtain ⟨horder, -, -, houtputs, -⟩ := wellFounded_of_lower rfl h
  have hlegacy : lowered.newShapeInference = false := by
    rw [(lowered_eq h).2]
    decide +kernel
  exact ⟨lowered, h, horder, houtputs Graph.productRequests Graph.ofRequests_productRequests
    hlegacy⟩

end Lowerer

end TensorLowering
