import TensorLowering.Graph.Opset

/-! # Constant paths

A node is on a constant path when everything that it is computed from is stored in the graph: walking
against the edges from it, and stopping at constants, one meets no node without inputs.

## Implementation notes

The walk keeps a stack of nodes to visit and the list of nodes already visited. Each node is expanded
once, so the stack is popped at most once more than the graph has edges. -/

namespace TensorLowering.Graph

/-- The number of edges. -/
def edgeCount (g : Graph) : Nat := g.nodes.foldr (fun n count => n.inputs.length + count) 0

/-- Visits the nodes on the stack. There is no answer when an edge leaves the graph. -/
def walkConstantPath (g : Graph) : Nat → List Nat → List Nat → Option Bool
  | _, _, [] => some true
  | 0, _, _ :: _ => none
  | fuel + 1, visited, position :: stack =>
    if visited.contains position then walkConstantPath g fuel visited stack
    else
      match g.node? position with
      | none => none
      | some n =>
        if n.isA Opset.constant then walkConstantPath g fuel (position :: visited) stack
        else if n.inputs = [] then some false
        else walkConstantPath g fuel (position :: visited) ((n.inputs.map Edge.node).reverse ++ stack)

/-- True when the node at a position is on a constant path. -/
def isOnConstantPath? (g : Graph) (position : Nat) : Option Bool :=
  g.walkConstantPath (g.edgeCount + 1) [] [position]

end TensorLowering.Graph
