import Mathlib.Algebra.BigOperators.Intervals
import TensorLowering.Graph.ConstantPath
import TensorLowering.Proofs.Graph.Assembly

/-!
# Constant paths

A walk that finds nothing but constants leaves behind a set of nodes that is closed: each is a
constant, or has inputs, all of which are in the set. In an assembled graph edges lead to earlier
nodes, so being on a constant path can be told from the producers, and every walk comes to an end.

## Main statements

* `Graph.exists_closed_of_walkConstantPath`: what a walk that ends well has seen.
* `Graph.onConstantPath_of_isOnConstantPath?`: a node that passes the test is on a constant path.
* `Graph.exists_isOnConstantPath?`: the test has an answer for every node of an assembled graph.
-/

namespace TensorLowering.Graph

/-- A node is a constant, or it has inputs and all of them come from such nodes. -/
inductive OnConstantPath (g : Graph) : Nat → Prop where
  | constant {i : Nat} {n : Node} (node : g.node? i = some n)
      (constant : n.isA Opset.constant = true) : OnConstantPath g i
  | computed {i : Nat} {n : Node} (node : g.node? i = some n) (inputs : n.inputs ≠ [])
      (producers : ∀ e ∈ n.inputs, OnConstantPath g e.node) : OnConstantPath g i

/-- A position holds a constant, or a node that has inputs, all from positions that were seen. -/
def Closed (g : Graph) (seen : List Nat) (i : Nat) : Prop :=
  ∃ n, g.node? i = some n ∧
    (n.isA Opset.constant = true ∨ n.inputs ≠ [] ∧ ∀ e ∈ n.inputs, e.node ∈ seen)

section Walk

variable {g : Graph}

/-- A walk that finds nothing but constants has seen everything that leads to the stack. -/
theorem exists_closed_of_walkConstantPath {fuel : Nat} {visited stack : List Nat}
    (h : g.walkConstantPath fuel visited stack = some true) :
    ∃ seen, visited ⊆ seen ∧ stack ⊆ seen ∧ ∀ i ∈ seen, i ∉ visited → g.Closed seen i := by
  induction fuel generalizing visited stack with
  | zero =>
      cases stack with
      | nil => exact ⟨visited, List.Subset.refl _, List.nil_subset _, fun i hi hnot => absurd hi hnot⟩
      | cons position stack => simp [walkConstantPath] at h
  | succ fuel ih =>
      cases stack with
      | nil => exact ⟨visited, List.Subset.refl _, List.nil_subset _, fun i hi hnot => absurd hi hnot⟩
      | cons position stack =>
          rw [walkConstantPath] at h
          split at h
          · next hseen =>
            obtain ⟨seen, hvisited, hstack, hclosed⟩ := ih h
            refine ⟨seen, hvisited, List.cons_subset.2 ⟨hvisited ?_, hstack⟩, hclosed⟩
            simpa using hseen
          · next hnew =>
            cases hnode : g.node? position with
            | none => simp [hnode] at h
            | some n =>
                simp only [hnode] at h
                split at h
                · next hconstant =>
                  obtain ⟨seen, hvisited, hstack, hclosed⟩ := ih h
                  obtain ⟨hposition, hvisited⟩ := List.cons_subset.1 hvisited
                  refine ⟨seen, hvisited, List.cons_subset.2 ⟨hposition, hstack⟩, ?_⟩
                  intro i hi hnot
                  by_cases heq : i = position
                  · exact ⟨n, heq ▸ hnode, .inl hconstant⟩
                  · exact hclosed i hi (List.not_mem_cons_of_ne_of_not_mem heq hnot)
                · split at h
                  · cases h
                  · next hinputs =>
                    obtain ⟨seen, hvisited, hstack, hclosed⟩ := ih h
                    obtain ⟨hposition, hvisited⟩ := List.cons_subset.1 hvisited
                    obtain ⟨hproducers, hstack⟩ := List.append_subset.1 hstack
                    refine ⟨seen, hvisited, List.cons_subset.2 ⟨hposition, hstack⟩, ?_⟩
                    intro i hi hnot
                    by_cases heq : i = position
                    · refine ⟨n, heq ▸ hnode, .inr ⟨hinputs, fun e he => hproducers ?_⟩⟩
                      exact List.mem_reverse.2 (List.mem_map_of_mem he)
                    · exact hclosed i hi (List.not_mem_cons_of_ne_of_not_mem heq hnot)

/-- In an assembled graph a node that passes the test is on a constant path. -/
theorem onConstantPath_of_isOnConstantPath? (hg : g.Consistent) {position : Nat}
    (h : g.isOnConstantPath? position = some true) : g.OnConstantPath position := by
  obtain ⟨seen, -, hstack, hclosed⟩ := exists_closed_of_walkConstantPath h
  -- the producers of a node stand before it
  have hall : ∀ i, i ∈ seen → g.OnConstantPath i := by
    intro i
    induction i using Nat.strongRecOn with
    | _ i ih =>
        intro hi
        obtain ⟨n, hn, hconstant | ⟨hinputs, hproducers⟩⟩ := hclosed i hi List.not_mem_nil
        · exact .constant hn hconstant
        · refine .computed hn hinputs fun e he => ih e.node ?_ (hproducers e he)
          obtain ⟨type, hlt, -⟩ := hg.leads_of_mem hn he
          exact hlt
  exact hall position (hstack (List.mem_singleton_self position))

/-- The number of edges into the node at a position. -/
def arity (g : Graph) (position : Nat) : Nat := (g.node? position).elim 0 fun n => n.inputs.length

/-- The number of edges into nodes that were not visited. -/
def openEdges (g : Graph) (visited : List Nat) : Nat :=
  ∑ position ∈ Finset.range g.size \ visited.toFinset, g.arity position

theorem openEdges_nil (g : Graph) : g.openEdges [] = g.edgeCount := by
  rcases g with ⟨nodes⟩
  rw [openEdges, edgeCount, List.toFinset_nil, Finset.sdiff_empty, size]
  induction nodes with
  | nil => rfl
  | cons n nodes ih =>
      rw [List.foldr_cons, List.length_cons, Finset.sum_range_succ', ← ih, Nat.add_comm]
      rfl

/-- Visiting a node takes its edges off. -/
theorem openEdges_cons {visited : List Nat} {position : Nat} {n : Node}
    (hnode : g.node? position = some n) (hnew : position ∉ visited) :
    g.openEdges visited = n.inputs.length + g.openEdges (position :: visited) := by
  have hlt : position < g.size := (List.getElem?_eq_some_iff.1 hnode).1
  have hmem : position ∈ Finset.range g.size \ visited.toFinset := by
    simp [hlt, hnew]
  have harity : g.arity position = n.inputs.length := by rw [arity, hnode, Option.elim_some]
  rw [openEdges, openEdges, List.toFinset_cons, Finset.sdiff_insert, ← harity,
    Finset.add_sum_erase _ _ hmem]

/-- A walk has an answer when its fuel covers the stack and the edges that it has not seen. -/
theorem exists_walkConstantPath (hrange : ∀ n ∈ g.nodes, ∀ e ∈ n.inputs, e.node < g.size)
    {fuel : Nat} {visited stack : List Nat} (hstack : ∀ i ∈ stack, i < g.size)
    (hfuel : stack.length + g.openEdges visited ≤ fuel) :
    ∃ answer, g.walkConstantPath fuel visited stack = some answer := by
  induction fuel generalizing visited stack with
  | zero =>
      cases stack with
      | nil => exact ⟨true, rfl⟩
      | cons position stack => simp at hfuel
  | succ fuel ih =>
      cases stack with
      | nil => exact ⟨true, rfl⟩
      | cons position stack =>
          obtain ⟨hposition, hstack⟩ := List.forall_mem_cons.1 hstack
          have hnode : g.node? position = some g.nodes[position] :=
            List.getElem?_eq_getElem hposition
          rw [List.length_cons] at hfuel
          rw [walkConstantPath]
          split
          · exact ih hstack (by omega)
          · next hnew =>
            have hedges := openEdges_cons hnode (by simpa using hnew)
            simp only [hnode]
            split
            · exact ih hstack (by omega)
            · split
              · exact ⟨false, rfl⟩
              · apply ih
                · intro i hi
                  rcases List.mem_append.1 hi with hproducer | hold
                  · obtain ⟨e, he, rfl⟩ := List.mem_map.1 (List.mem_reverse.1 hproducer)
                    exact hrange _ (List.getElem_mem hposition) e he
                  · exact hstack i hold
                · rw [List.length_append, List.length_reverse, List.length_map]
                  omega

/-- The test has an answer for every node of a graph whose edges stay inside of it. -/
theorem exists_isOnConstantPath?_of_inside
    (hrange : ∀ n ∈ g.nodes, ∀ e ∈ n.inputs, e.node < g.size) {position : Nat}
    (h : position < g.size) : ∃ answer, g.isOnConstantPath? position = some answer := by
  apply exists_walkConstantPath hrange
  · simpa using h
  · rw [openEdges_nil, List.length_singleton, Nat.add_comm]

/-- The test has an answer for every node of an assembled graph. -/
theorem exists_isOnConstantPath? (hg : g.Consistent) {position : Nat} (h : position < g.size) :
    ∃ answer, g.isOnConstantPath? position = some answer := by
  apply exists_isOnConstantPath?_of_inside _ h
  intro n hn e he
  obtain ⟨i, hi⟩ := List.mem_iff_getElem?.1 hn
  obtain ⟨type, hlt, -⟩ := hg.leads_of_mem hi he
  exact Nat.lt_trans hlt (List.getElem?_eq_some_iff.1 hi).1

end Walk

end TensorLowering.Graph
