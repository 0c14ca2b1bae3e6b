import TensorLowering.NameMap
import TensorLowering.Numeric.Binary64
import TensorLowering.Spec.Literal

/-! # Graphs

A graph lists operations with the tensors that they read and produce. Shapes and types are already
inferred: every node carries the types of its inputs and outputs, and nothing here computes them.
Nodes refer to each other by position. -/

namespace TensorLowering

open Numeric

/-- A kind of operation: its name, and the version of the operation set that defines it. -/
structure OpKind where
  name : String
  version : String
  deriving DecidableEq, Repr

/-- The version and the name. -/
def OpKind.text (k : OpKind) : String := k.version ++ "::" ++ k.name

/-- The type of an operation: its kind, followed by the more general kinds that it also is. A type
read from a document may have no level at all. -/
structure OpType where
  levels : List OpKind
  deriving DecidableEq, Repr

namespace OpType

/-- The type of a kind that has no more general one. -/
def single (kind : OpKind) : OpType := ⟨[kind]⟩

/-- The kind itself. -/
def kind? (t : OpType) : Option OpKind := t.levels.head?

/-- True when the type is of this kind on some level. -/
def isA (t : OpType) (kind : OpKind) : Bool := t.levels.contains kind

end OpType

/-- An edge into a node: which output of which node it reads. -/
structure Edge where
  node : Nat
  output : Nat
  deriving DecidableEq, Repr

/-- The value of an attribute. -/
inductive Attribute where
  | bool (value : Bool)
  | int (value : Int64)
  | float (value : Binary64)
  | ints (values : List Int64)
  | str (value : String)
  deriving DecidableEq, Repr

/-- An operation of a graph. -/
structure Node where
  id : Nat
  type : OpType
  name : String
  inputs : List Edge
  inputTypes : List TensorType
  outputs : List TensorType
  attributes : NameMap Attribute
  value : Option Literal
  deriving DecidableEq

namespace Node

/-- The kind of the operation. -/
def kind? (n : Node) : Option OpKind := n.type.kind?

/-- True when the operation is of this kind on some level. -/
def isA (n : Node) (kind : OpKind) : Bool := n.type.isA kind

/-- The value of a switch, which is `unset` when the attribute is missing or no switch. -/
def switch (n : Node) (name : String) (unset : Bool) : Bool :=
  match n.attributes.get? name with
  | some (.bool value) => value
  | _ => unset

/-- The value of an integer attribute. -/
def int? (n : Node) (name : String) : Option Int64 :=
  match n.attributes.get? name with
  | some (.int value) => some value
  | _ => none

/-- The types of the inputs and outputs. -/
def types (n : Node) : List TensorType := n.inputTypes ++ n.outputs

/-- True when some input or output has a symbolic extent. -/
def isDynamic (n : Node) : Bool := n.types.any fun t => t.shape.isDynamic

end Node

/-- Operations in the order in which they are lowered and evaluated. -/
structure Graph where
  nodes : List Node
  deriving DecidableEq

namespace Graph

/-- The graph without nodes. -/
def empty : Graph := ⟨[]⟩

instance : Inhabited Graph := ⟨empty⟩

/-- The number of nodes. -/
def size (g : Graph) : Nat := g.nodes.length

/-- The node at a position. -/
def node? (g : Graph) (position : Nat) : Option Node := g.nodes[position]?

/-- The first node with a name. -/
def find? (g : Graph) (name : String) : Option Node := g.nodes.find? (·.name == name)

/-- The node that an input of a node reads from. -/
def producer? (g : Graph) (n : Node) (input : Nat) : Option Node :=
  n.inputs[input]?.bind fun edge => g.node? edge.node

end Graph

end TensorLowering
