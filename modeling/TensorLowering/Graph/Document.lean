import TensorLowering.Graph.Basic
import TensorLowering.Json.Reader
import TensorLowering.Json.Printer
import TensorLowering.Spec.Document

/-! # Graphs in documents

A graph is a record with its nodes; attributes are variants under their names, in ascending order.
Reading accepts any graph that has the right form, also one whose edges make no sense. -/

namespace TensorLowering

open Json

namespace OpKind

/-- The record of a kind. -/
def toValue (k : OpKind) : Value := .object [("name", .string k.name), ("version_id", .string k.version)]

/-- Reads the record of a kind. -/
def ofValue? (v : Value) : Option OpKind := do
  let r ← v.record? ["name", "version_id"]
  pure ⟨← r.required 0 Value.string?, ← r.required 1 Value.string?⟩

end OpKind

namespace OpType

/-- The record of a type. -/
def toValue (t : OpType) : Value := .object [("chain", .array (t.levels.map OpKind.toValue))]

/-- Reads the record of a type. -/
def ofValue? (v : Value) : Option OpType := do
  let r ← v.record? ["chain"]
  pure ⟨← r.required 0 (Value.list? OpKind.ofValue?)⟩

end OpType

namespace Edge

/-- The record of an edge. -/
def toValue (e : Edge) : Value := .object [("node", .nat e.node), ("index", .nat e.output)]

/-- Reads the record of an edge. -/
def ofValue? (v : Value) : Option Edge := do
  let r ← v.record? ["node", "index"]
  pure ⟨← r.required 0 Value.nat?, ← r.required 1 Value.nat?⟩

end Edge

namespace Attribute

/-- The variant of an attribute. -/
def toValue : Attribute → Value
  | bool value => .tagged "Bool" (.bool value)
  | int value => .tagged "Int" (.int value.toInt)
  | float value => .tagged "Float" (.float64 value)
  | ints values => .tagged "Ints" (.array (values.map fun n => .int n.toInt))
  | str value => .tagged "Str" (.string value)

/-- Reads the variant of an attribute. -/
def ofValue? (v : Value) : Option Attribute :=
  match v.variant? with
  | some ("Bool", some payload) => payload.bool?.map bool
  | some ("Int", some payload) => payload.int?.map int
  | some ("Float", some payload) => payload.float?.map float
  | some ("Ints", some payload) => (payload.list? Value.int?).map ints
  | some ("Str", some payload) => payload.string?.map str
  | _ => none

/-- The object of attributes by name. -/
def mapToValue (attributes : NameMap Attribute) : Value :=
  .object (attributes.entries.map fun (name, a) => (name, a.toValue))

/-- Reads an object of attributes; of two members with one name the later counts. -/
def mapOfValue? : Value → Option (NameMap Attribute)
  | .object members => (members.mapM fun (m : String × Value) => (ofValue? m.2).map (m.1, ·)).map NameMap.ofList
  | _ => none

end Attribute

namespace Node

/-- The names of the fields. -/
def fieldNames : List String :=
  ["id", "op_type", "friendly_name", "inputs", "input_specs", "outputs", "attrs", "value"]

/-- The record of a node. -/
def toValue (n : Node) : Value :=
  .object (fieldNames.zip
    [.nat n.id, n.type.toValue, .string n.name, .array (n.inputs.map Edge.toValue),
     .array (n.inputTypes.map TensorType.toValue), .array (n.outputs.map TensorType.toValue),
     Attribute.mapToValue n.attributes, .option Literal.toValue n.value])

/-- Reads the record of a node. -/
def ofValue? (v : Value) : Option Node := do
  let r ← v.record? fieldNames
  pure {
    id := ← r.required 0 Value.nat?
    type := ← r.required 1 OpType.ofValue?
    name := ← r.required 2 Value.string?
    inputs := ← r.required 3 (Value.list? Edge.ofValue?)
    inputTypes := ← r.required 4 (Value.list? TensorType.ofValue?)
    outputs := ← r.required 5 (Value.list? TensorType.ofValue?)
    attributes := ← r.required 6 Attribute.mapOfValue?
    value := ← r.nullable 7 Literal.ofValue? }

end Node

namespace Graph

/-- The record of a graph. -/
def toValue (g : Graph) : Value := .object [("nodes", .array (g.nodes.map Node.toValue))]

/-- Reads the record of a graph. -/
def ofValue? (v : Value) : Option Graph := do
  let r ← v.record? ["nodes"]
  pure ⟨← r.required 0 (Value.list? Node.ofValue?)⟩

/-- The text of a graph. -/
def toText (g : Graph) : String := compact g.toValue

/-- The graph that a text holds. -/
def ofText? (text : String) : Option Graph := (parse? text).bind ofValue?

end Graph

end TensorLowering
