import Mathlib.Data.Fintype.Card
import Mathlib.Logic.Relation
import TensorLowering.Proofs.Graph.ConstantPath

/-!
# The walk against the edges

The walk that looks for constants opens nodes one after the other, on any graph, also on one with
cycles. It opens no node twice, and its answer says whether a node that the graph does not determine
can be reached. Only without cycles is this the same as being computed from constants.

## Main statements

* `Graph.Walk.nodup`: the nodes whose inputs a walk looks at are different nodes.
* `Graph.Walk.exists_supplied`: a walk that ends badly has met a node that is supplied from outside.
* `Graph.isOnConstantPath?_decides`: what the answer of the test means.
-/

namespace TensorLowering.Graph

/-- A walk, from the nodes that were visited and those that are pending to its answer. The list holds
the nodes that it opens, in turn: those whose inputs it puts on the stack. -/
inductive Walk (g : Graph) : List Nat → List Nat → List Nat → Bool → Prop where
  | finished {visited : List Nat} : Walk g visited [] [] true
  | known {visited pending opened : List Nat} {i : Nat} {answer : Bool} (seen : i ∈ visited)
      (rest : Walk g visited pending opened answer) : Walk g visited (i :: pending) opened answer
  | constant {visited pending opened : List Nat} {i : Nat} {n : Node} {answer : Bool}
      (new : i ∉ visited) (node : g.node? i = some n) (constant : n.isA Opset.constant = true)
      (rest : Walk g (i :: visited) pending opened answer) :
      Walk g visited (i :: pending) opened answer
  | supplied {visited pending : List Nat} {i : Nat} {n : Node} (new : i ∉ visited)
      (node : g.node? i = some n) (plain : n.isA Opset.constant = false) (empty : n.inputs = []) :
      Walk g visited (i :: pending) [] false
  | opened {visited pending opened : List Nat} {i : Nat} {n : Node} {answer : Bool}
      (new : i ∉ visited) (node : g.node? i = some n) (plain : n.isA Opset.constant = false)
      (inputs : n.inputs ≠ [])
      (rest : Walk g (i :: visited) ((n.inputs.map Edge.node).reverse ++ pending) opened answer) :
      Walk g visited (i :: pending) (i :: opened) answer

/-- A node is neither a constant nor computed from anything: its value is supplied from outside. -/
def IsSupplied (g : Graph) (i : Nat) : Prop :=
  ∃ n, g.node? i = some n ∧ n.isA Opset.constant = false ∧ n.inputs = []

/-- One node reads the other. -/
def Reads (g : Graph) (i j : Nat) : Prop :=
  ∃ n, g.node? i = some n ∧ ∃ e ∈ n.inputs, e.node = j

/-- One node reads the other, and is no constant. -/
def Follows (g : Graph) (i j : Nat) : Prop :=
  ∃ n, g.node? i = some n ∧ n.isA Opset.constant = false ∧ ∃ e ∈ n.inputs, e.node = j

/-- No node is computed from itself. -/
def Acyclic (g : Graph) : Prop := ∀ i, ¬ Relation.TransGen g.Reads i i

/-- Constants have the property, and so do the nodes with inputs whose producers all have it; no other
node has it. -/
def IsInherited (g : Graph) (P : Nat → Prop) : Prop :=
  ∀ i n, g.node? i = some n →
    (P i ↔ n.isA Opset.constant = true ∨ n.inputs ≠ [] ∧ ∀ e ∈ n.inputs, P e.node)

variable {g : Graph}

/-- A node is not a constant and none at once. -/
theorem ne_false_of_isA_constant {i : Nat} {n n' : Node} (hnode : g.node? i = some n)
    (hnode' : g.node? i = some n') (hconstant : n.isA Opset.constant = true) :
    n'.isA Opset.constant ≠ false := by
  obtain rfl := Option.some.inj (hnode.symm.trans hnode')
  simp [hconstant]

namespace Walk

variable {visited pending opened opened' : List Nat} {answer answer' : Bool}

/-- There is one walk only. -/
theorem unique (walk : g.Walk visited pending opened answer)
    (walk' : g.Walk visited pending opened' answer') : opened' = opened ∧ answer' = answer := by
  induction walk generalizing opened' answer' with
  | finished =>
      cases walk'
      exact ⟨rfl, rfl⟩
  | known seen _ ih =>
      cases walk' with
      | known _ rest => exact ih rest
      | constant new => exact absurd seen new
      | supplied new => exact absurd seen new
      | opened new => exact absurd seen new
  | constant new node constant _ ih =>
      cases walk' with
      | known seen => exact absurd seen new
      | constant _ node' _ rest => exact ih rest
      | supplied _ node' plain => exact absurd plain (ne_false_of_isA_constant node node' constant)
      | opened _ node' plain => exact absurd plain (ne_false_of_isA_constant node node' constant)
  | supplied new node plain empty =>
      cases walk' with
      | known seen => exact absurd seen new
      | constant _ node' constant =>
          exact absurd plain (ne_false_of_isA_constant node' node constant)
      | supplied => exact ⟨rfl, rfl⟩
      | opened _ node' _ inputs =>
          obtain rfl := Option.some.inj (node.symm.trans node')
          exact absurd empty inputs
  | opened new node plain inputs _ ih =>
      cases walk' with
      | known seen => exact absurd seen new
      | constant _ node' constant =>
          exact absurd plain (ne_false_of_isA_constant node' node constant)
      | supplied _ node' _ empty =>
          obtain rfl := Option.some.inj (node.symm.trans node')
          exact absurd empty inputs
      | opened _ node' _ _ rest =>
          obtain rfl := Option.some.inj (node.symm.trans node')
          obtain ⟨rfl, rfl⟩ := ih rest
          exact ⟨rfl, rfl⟩

/-- A node is opened when it is visited first, and never again. -/
theorem nodup (walk : g.Walk visited pending opened answer) :
    opened.Nodup ∧ ∀ i ∈ opened, i ∉ visited := by
  induction walk with
  | finished => exact ⟨.nil, by simp⟩
  | known _ _ ih => exact ih
  | constant _ _ _ _ ih =>
      exact ⟨ih.1, fun j hj hseen => ih.2 j hj (List.mem_cons_of_mem _ hseen)⟩
  | supplied => exact ⟨.nil, by simp⟩
  | opened new _ _ _ _ ih =>
      refine ⟨List.nodup_cons.2 ⟨fun hagain => ih.2 _ hagain List.mem_cons_self, ih.1⟩, ?_⟩
      refine List.forall_mem_cons.2 ⟨new, fun j hj hseen => ?_⟩
      exact ih.2 j hj (List.mem_cons_of_mem _ hseen)

/-- A walk that ends badly has met a supplied node behind a node that was pending. -/
theorem exists_supplied (walk : g.Walk visited pending opened answer) (hanswer : answer = false) :
    ∃ i ∈ pending, ∃ j, Relation.ReflTransGen g.Follows i j ∧ g.IsSupplied j := by
  induction walk with
  | finished => cases hanswer
  | known _ _ ih | constant _ _ _ _ ih =>
      obtain ⟨i, hi, hmet⟩ := ih hanswer
      exact ⟨i, List.mem_cons_of_mem _ hi, hmet⟩
  | supplied _ node plain empty =>
      exact ⟨_, List.mem_cons_self, _, .refl, _, node, plain, empty⟩
  | opened _ node plain _ _ ih =>
      obtain ⟨i, hi, j, hreach, hsupplied⟩ := ih hanswer
      rcases List.mem_append.1 hi with hproducer | hold
      · obtain ⟨e, he, rfl⟩ := List.mem_map.1 (List.mem_reverse.1 hproducer)
        exact ⟨_, List.mem_cons_self, j, .head ⟨_, node, plain, e, he, rfl⟩ hreach, hsupplied⟩
      · exact ⟨i, List.mem_cons_of_mem _ hold, j, hreach, hsupplied⟩

end Walk

/-- The test takes a walk. -/
theorem exists_walk_of_walkConstantPath {fuel : Nat} {visited pending : List Nat} {answer : Bool}
    (h : g.walkConstantPath fuel visited pending = some answer) :
    ∃ opened, g.Walk visited pending opened answer := by
  induction fuel generalizing visited pending with
  | zero =>
      cases pending with
      | nil =>
          obtain rfl := Option.some.inj h
          exact ⟨[], .finished⟩
      | cons i pending => cases h
  | succ fuel ih =>
      cases pending with
      | nil =>
          obtain rfl := Option.some.inj h
          exact ⟨[], .finished⟩
      | cons i pending =>
          rw [walkConstantPath] at h
          split at h
          · next hseen =>
            obtain ⟨opened, rest⟩ := ih h
            exact ⟨opened, .known (by simpa using hseen) rest⟩
          · next hnew =>
            have hnew' : i ∉ visited := by simpa using hnew
            cases hnode : g.node? i with
            | none => simp [hnode] at h
            | some n =>
                simp only [hnode] at h
                split at h
                · next hconstant =>
                  obtain ⟨opened, rest⟩ := ih h
                  exact ⟨opened, .constant hnew' hnode hconstant rest⟩
                · next hplain =>
                  have hplain' : n.isA Opset.constant = false := by simpa using hplain
                  split at h
                  · next hempty =>
                    obtain rfl := Option.some.inj h
                    exact ⟨[], .supplied hnew' hnode hplain' hempty⟩
                  · next hinputs =>
                    obtain ⟨opened, rest⟩ := ih h
                    exact ⟨i :: opened, .opened hnew' hnode hplain' hinputs rest⟩

section Closed

variable {seen : List Nat} {i j : Nat}

/-- What is reached from a closed set of nodes is in it. -/
theorem mem_of_reaches (hclosed : ∀ k ∈ seen, g.Closed seen k) (hi : i ∈ seen)
    (h : Relation.ReflTransGen g.Follows i j) : j ∈ seen := by
  induction h with
  | refl => exact hi
  | tail _ hstep ih =>
      obtain ⟨n, hnode, hplain, e, he, rfl⟩ := hstep
      obtain ⟨n', hnode', hconstant | ⟨-, hproducers⟩⟩ := hclosed _ ih
      · exact absurd hplain (ne_false_of_isA_constant hnode' hnode hconstant)
      · obtain rfl := Option.some.inj (hnode.symm.trans hnode')
        exact hproducers e he

/-- A closed set has no supplied node. -/
theorem Closed.not_isSupplied (h : g.Closed seen i) : ¬ g.IsSupplied i := by
  rintro ⟨n, hnode, hplain, hempty⟩
  obtain ⟨n', hnode', hconstant | ⟨hinputs, -⟩⟩ := h
  · exact absurd hplain (ne_false_of_isA_constant hnode' hnode hconstant)
  · obtain rfl := Option.some.inj (hnode.symm.trans hnode')
    exact hinputs hempty

end Closed

section Inherited

variable {P : Nat → Prop} {i j : Nat}

theorem isInherited_onConstantPath (g : Graph) : g.IsInherited g.OnConstantPath := by
  intro i n hnode
  constructor
  · rintro (⟨hnode', hconstant⟩ | ⟨hnode', hinputs, hproducers⟩)
    · obtain rfl := Option.some.inj (hnode.symm.trans hnode')
      exact .inl hconstant
    · obtain rfl := Option.some.inj (hnode.symm.trans hnode')
      exact .inr ⟨hinputs, hproducers⟩
  · rintro (hconstant | ⟨hinputs, hproducers⟩)
    · exact .constant hnode hconstant
    · exact .computed hnode hinputs hproducers

/-- An inherited property goes on to everything that is reached, and no supplied node has it. -/
theorem IsInherited.not_isSupplied (hP : g.IsInherited P) (hi : P i)
    (h : Relation.ReflTransGen g.Follows i j) : ¬ g.IsSupplied j := by
  have hj : P j := by
    induction h with
    | refl => exact hi
    | tail _ hstep ih =>
        obtain ⟨n, hnode, hplain, e, he, rfl⟩ := hstep
        rcases (hP _ n hnode).1 ih with hconstant | ⟨-, hproducers⟩
        · exact absurd hplain (ne_false_of_isA_constant hnode hnode hconstant)
        · exact hproducers e he
  rintro ⟨n, hnode, hplain, hempty⟩
  rcases (hP j n hnode).1 hj with hconstant | ⟨hinputs, -⟩
  · exact absurd hplain (ne_false_of_isA_constant hnode hnode hconstant)
  · exact hinputs hempty

/-- In a graph without cycles the nodes can be taken in an order in which producers come first. -/
theorem Acyclic.wellFounded (hg : g.Acyclic) :
    WellFounded fun i j : Fin g.size => Relation.TransGen g.Reads j.val i.val := by
  have : IsTrans (Fin g.size) fun i j => Relation.TransGen g.Reads j.val i.val :=
    ⟨fun _ _ _ hij hjk => hjk.trans hij⟩
  have : Std.Irrefl fun i j : Fin g.size => Relation.TransGen g.Reads j.val i.val :=
    ⟨fun i => hg i.val⟩
  exact Finite.wellFounded_of_trans_of_irrefl _

/-- Edges of an assembled graph lead to earlier nodes. -/
theorem Consistent.acyclic (hg : g.Consistent) : g.Acyclic := by
  have hearlier : ∀ {i j}, Relation.TransGen g.Reads i j → j < i := by
    intro i j h
    induction h with
    | single hread =>
        obtain ⟨n, hnode, e, he, rfl⟩ := hread
        obtain ⟨type, hlt, -⟩ := hg.leads_of_mem hnode he
        exact hlt
    | tail _ hread ih =>
        obtain ⟨n, hnode, e, he, rfl⟩ := hread
        obtain ⟨type, hlt, -⟩ := hg.leads_of_mem hnode he
        exact Nat.lt_trans hlt ih
  exact fun i h => Nat.lt_irrefl i (hearlier h)

/-- Without cycles, a closed set has every inherited property. -/
theorem IsInherited.of_closed (hP : g.IsInherited P) (hg : g.Acyclic) {seen : List Nat}
    (hclosed : ∀ k ∈ seen, g.Closed seen k) (hi : i ∈ seen) : P i := by
  have hsize : ∀ k ∈ seen, k < g.size := by
    intro k hk
    obtain ⟨n, hnode, -⟩ := hclosed k hk
    exact (List.getElem?_eq_some_iff.1 hnode).1
  have hall : ∀ k : Fin g.size, k.val ∈ seen → P k.val := by
    intro k
    induction k using hg.wellFounded.induction with
    | _ k ih =>
        intro hk
        obtain ⟨n, hnode, hconstant | ⟨hinputs, hproducers⟩⟩ := hclosed k.val hk
        · exact (hP k.val n hnode).2 (.inl hconstant)
        · refine (hP k.val n hnode).2 (.inr ⟨hinputs, fun e he => ?_⟩)
          have hproducer := hproducers e he
          exact ih ⟨e.node, hsize _ hproducer⟩ (.single ⟨n, hnode, e, he, rfl⟩) hproducer
  exact hall ⟨i, hsize i hi⟩ hi

end Inherited

/-- The test has an answer for every node of a graph whose edges stay inside of it. It takes one walk,
which opens no node twice. The answer says that no supplied node can be reached from the node on a way
that stops at constants. Without cycles it is the one property of nodes that constants have and that
nodes with inputs inherit from all of their producers. -/
theorem isOnConstantPath?_decides (hrange : ∀ n ∈ g.nodes, ∀ e ∈ n.inputs, e.node < g.size)
    {position : Nat} (hposition : position < g.size) :
    ∃ answer opened, g.isOnConstantPath? position = some answer ∧
      (∀ opened' answer', g.Walk [] [position] opened' answer' ↔
        opened' = opened ∧ answer' = answer) ∧
      opened.Nodup ∧
      (answer = true ↔ ∀ i, Relation.ReflTransGen g.Follows position i → ¬ g.IsSupplied i) ∧
      g.IsInherited g.OnConstantPath ∧
      (g.Acyclic → ∀ P, g.IsInherited P → (answer = true ↔ P position)) := by
  obtain ⟨answer, hanswer⟩ := exists_isOnConstantPath?_of_inside hrange hposition
  obtain ⟨opened, walk⟩ := exists_walk_of_walkConstantPath hanswer
  have hreaches : answer = true ↔
      ∀ i, Relation.ReflTransGen g.Follows position i → ¬ g.IsSupplied i := by
    constructor
    · rintro rfl i hi
      obtain ⟨seen, -, hstack, hclosed⟩ := exists_closed_of_walkConstantPath hanswer
      have hclosed' : ∀ k ∈ seen, g.Closed seen k := fun k hk => hclosed k hk List.not_mem_nil
      exact (hclosed' i (mem_of_reaches hclosed' (hstack (List.mem_singleton_self _)) hi)).not_isSupplied
    · intro h
      by_contra hfalse
      obtain ⟨i, hi, j, hreach, hsupplied⟩ := walk.exists_supplied (by simpa using hfalse)
      obtain rfl := List.mem_singleton.1 hi
      exact h j hreach hsupplied
  refine ⟨answer, opened, hanswer, ?_, walk.nodup.1, hreaches, isInherited_onConstantPath g, ?_⟩
  · intro opened' answer'
    constructor
    · exact fun walk' => walk.unique walk'
    · rintro ⟨rfl, rfl⟩
      exact walk
  · intro hacyclic P hP
    constructor
    · rintro rfl
      obtain ⟨seen, -, hstack, hclosed⟩ := exists_closed_of_walkConstantPath hanswer
      exact hP.of_closed hacyclic (fun k hk => hclosed k hk List.not_mem_nil)
        (hstack (List.mem_singleton_self _))
    · exact fun hposition => hreaches.2 fun i hi => hP.not_isSupplied hposition hi

/-- Two nodes that read each other, and a constant of a kind of its own that reads a parameter. -/
def entangled : Graph :=
  ⟨[⟨0, .single Opset.erf, "a", [⟨1, 0⟩, ⟨1, 0⟩], [], [], .empty, none⟩,
    ⟨1, .single Opset.erf, "b", [⟨0, 0⟩, ⟨2, 0⟩], [], [], .empty, none⟩,
    ⟨2, ⟨[⟨"Weights", "own"⟩, Opset.constant]⟩, "c", [⟨3, 0⟩], [], [], .empty, none⟩,
    ⟨3, .single Opset.parameter, "x", [], [], [], .empty, none⟩]⟩

/-- The nodes that read each other pass the test, for the parameter is behind the constant. A product
of parameters is not computed from constants. -/
theorem isOnConstantPath?_entangled :
    (∀ n ∈ entangled.nodes, ∀ e ∈ n.inputs, e.node < entangled.size) ∧ 0 < entangled.size ∧
      entangled.Walk [] [0] [0, 1] true ∧
      (∀ i, Relation.ReflTransGen entangled.Follows 0 i → ¬ entangled.IsSupplied i) ∧
    (∀ n ∈ product.nodes, ∀ e ∈ n.inputs, e.node < product.size) ∧ 2 < product.size ∧
      product.Acyclic ∧ ¬ product.OnConstantPath 2 := by
  have hentangled : ∀ n ∈ entangled.nodes, ∀ e ∈ n.inputs, e.node < entangled.size := by decide
  have hproduct : ∀ n ∈ product.nodes, ∀ e ∈ n.inputs, e.node < product.size := by decide
  have hacyclic : product.Acyclic := (consistent_of_ofRequests ofRequests_productRequests).acyclic
  have hwalk : entangled.Walk [] [0] [0, 1] true := by
    refine .opened (by decide) rfl (by decide) (by decide) ?_
    refine .opened (by decide) rfl (by decide) (by decide) ?_
    refine .constant (by decide) rfl (by decide) ?_
    exact .known (by decide) (.known (by decide) .finished)
  have hfirst : 0 < entangled.size := by decide
  have hthird : 2 < product.size := by decide
  obtain ⟨answer, opened, -, hunique, -, hreaches, -⟩ := isOnConstantPath?_decides hentangled hfirst
  obtain ⟨answer', opened', hanswer', -, -, -, hinherited, hacyclics⟩ :=
    isOnConstantPath?_decides hproduct hthird
  obtain ⟨-, rfl⟩ := (hunique _ _).1 hwalk
  have hfalse : product.isOnConstantPath? 2 = some false := rfl
  obtain rfl := Option.some.inj (hfalse.symm.trans hanswer')
  refine ⟨hentangled, hfirst, hwalk, hreaches.1 rfl, hproduct, hthird, hacyclic, ?_⟩
  intro hpath
  cases (hacyclics hacyclic _ hinherited).2 hpath

end TensorLowering.Graph
