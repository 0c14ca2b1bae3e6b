import TensorLowering.Graph.Opset

/-! # Assembling graphs

Nodes are added one after the other. A new node may only read outputs of nodes that are already
there, and its input types are copied from them, so that an assembled graph is in dependency order
and consistent. -/

namespace TensorLowering

/-- Why a node cannot be added. -/
inductive GraphError where
  | unknownProducer (node : String) (producer : Nat)
  | outputOutOfRange (node producer : String) (output available : Nat)
  deriving DecidableEq, Repr

/-- The text of the error. -/
def GraphError.message : GraphError → String
  | unknownProducer node producer => s!"node '{node}' references unknown producer NodeId({producer})"
  | outputOutOfRange node producer output available =>
    s!"node '{node}' references output {output} of '{producer}' which has {available} outputs"

/-- What a new node is. -/
inductive NodeRequest where
  | parameter (type : TensorType)
  | constant (literal : Literal)
  | result (input : Edge)
  | operation (type : OpType) (inputs : List Edge) (outputs : List TensorType)
      (attributes : NameMap Attribute)

namespace Graph

/-- The type of an output that a new node reads. -/
def outputType (g : Graph) (consumer : String) (edge : Edge) : Except GraphError TensorType :=
  match g.node? edge.node with
  | none => .error (.unknownProducer consumer edge.node)
  | some producer =>
    match producer.outputs[edge.output]? with
    | none => .error (.outputOutOfRange consumer producer.name edge.output producer.outputs.length)
    | some type => .ok type

/-- The node that a request describes, as the next one of a graph. -/
def nodeOf (g : Graph) (name : String) : NodeRequest → Except GraphError Node
  | .parameter type => .ok ⟨g.size, .single Opset.parameter, name, [], [], [type], .empty, none⟩
  | .constant literal =>
    .ok ⟨g.size, .single Opset.constant, name, [], [], [literal.type], .empty, some literal⟩
  | .result input => do
    let type ← g.outputType name input
    pure ⟨g.size, .single Opset.result, name, [input], [type], [type], .empty, none⟩
  | .operation type inputs outputs attributes => do
    let inputTypes ← inputs.mapM (g.outputType name)
    pure ⟨g.size, type, name, inputs, inputTypes, outputs, attributes, none⟩

/-- Adds a node at the end; its position is the size before. -/
def append (g : Graph) (name : String) (request : NodeRequest) : Except GraphError Graph := do
  pure ⟨g.nodes ++ [← g.nodeOf name request]⟩

/-- Adds nodes until one is refused. -/
def ofRequests (requests : List (String × NodeRequest)) : Except GraphError Graph :=
  requests.foldlM (fun g request => g.append request.1 request.2) empty

end Graph

/-- Work on a graph that is being assembled. A refusal does not undo what was done before it. -/
abbrev Assembly := ExceptT GraphError (StateM Graph)

namespace Assembly

/-- Adds a node to the graph, and answers its position. -/
def add (name : String) (request : NodeRequest) : Assembly Nat := do
  let g ← get
  let n ← g.nodeOf name request
  set (⟨g.nodes ++ [n]⟩ : Graph)
  pure g.size

/-- Adds nodes in turn, and goes on behind the ones that are refused. -/
def addAll (requests : List (String × NodeRequest)) : StateM Graph (List (Except GraphError Nat)) :=
  requests.mapM fun request => (add request.1 request.2).run

end Assembly

end TensorLowering
