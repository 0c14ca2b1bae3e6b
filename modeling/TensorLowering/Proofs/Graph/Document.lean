import TensorLowering.Graph.Document
import TensorLowering.Proofs.Json.Fields
import TensorLowering.Proofs.NameMap

/-!
# Graphs are read back from their texts

A graph that is written as a document and read again is the same graph: names, symbols and texts
with any characters in them, extents and positions of any word, literals with any bytes.

## Implementation notes

Only numbers that stand for words are bounded; no text, list or payload is. Attributes with a
floating-point number are left out: whether such a number is read back depends on how it is rounded.

## Main statements

* `Graph.ofText?_toText`: the text of a graph holds the graph.
-/

namespace TensorLowering

open Json

/-! ## Types and literals -/

/-- An extent with a symbol, or with a number that is a word. -/
def Extent.InRange : Extent → Prop
  | fixed size => size < wordLimit
  | symbolic _ => True

instance : DecidablePred Extent.InRange
  | .fixed size => inferInstanceAs (Decidable (size < wordLimit))
  | .symbolic _ => inferInstanceAs (Decidable True)

/-- A tensor type whose numbers are words. -/
def TensorType.InRange (t : TensorType) : Prop := ∀ e ∈ t.shape.extents, e.InRange

instance : DecidablePred TensorType.InRange := fun t =>
  inferInstanceAs (Decidable (∀ e ∈ t.shape.extents, e.InRange))

theorem ElementType.recovers (t : ElementType) : Recovers toValue ofValue? t where
  written := .string t.tag
  read_write := by cases t <;> rfl

theorem Extent.recovers {e : Extent} (h : e.InRange) : Recovers toValue ofValue? e := by
  cases e with
  | fixed size => exact .variant "Static" rfl (fun _ => rfl) (.nat h)
  | symbolic symbol => exact .variant "Dynamic" rfl (fun _ => rfl) (.string symbol)

theorem Shape.recovers {s : Shape} (h : ∀ e ∈ s.extents, e.InRange) :
    Recovers toValue ofValue? s := by
  have hextents := Recovers.list s.extents fun e he => Extent.recovers (h e he)
  exact .single "dims" Shape.mk hextents rfl fun _ => rfl

theorem TensorType.recovers {t : TensorType} (h : t.InRange) : Recovers toValue ofValue? t := by
  have hshape : Recovers Shape.toValue Shape.ofValue? t.shape := Shape.recovers h
  exact .pair "dtype" "shape" TensorType.mk (by decide) t.element.recovers hshape rfl fun _ => rfl

theorem Literal.recovers {l : Literal} (h : l.type.InRange) : Recovers toValue ofValue? l := by
  have htype := TensorType.recovers h
  exact .pair "spec" "bytes" Literal.mk (by decide) htype (.bytes l.bytes) rfl fun _ => rfl

/-! ## Nodes -/

/-- An edge whose two positions are words. -/
structure Edge.InRange (e : Edge) : Prop where
  node : e.node < wordLimit
  output : e.output < wordLimit

instance : DecidablePred Edge.InRange := fun e =>
  decidable_of_iff (e.node < wordLimit ∧ e.output < wordLimit)
    ⟨fun h => ⟨h.1, h.2⟩, fun h => ⟨h.node, h.output⟩⟩

/-- A node whose numbers are words: its own, those of its edges, and those of its types and of its
literal. -/
structure Node.InRange (n : Node) : Prop where
  id : n.id < wordLimit
  inputs : ∀ e ∈ n.inputs, e.InRange
  types : ∀ t ∈ n.types, t.InRange
  value : ∀ l ∈ n.value, l.type.InRange

instance : DecidablePred Node.InRange := fun n =>
  decidable_of_iff (n.id < wordLimit ∧ (∀ e ∈ n.inputs, e.InRange) ∧ (∀ t ∈ n.types, t.InRange) ∧
      ∀ l ∈ n.value, l.type.InRange)
    ⟨fun ⟨hid, hinputs, htypes, hvalue⟩ => ⟨hid, hinputs, htypes, hvalue⟩,
      fun h => ⟨h.id, h.inputs, h.types, h.value⟩⟩

/-- True for an attribute with a floating-point number. -/
def Attribute.isFloat : Attribute → Bool
  | float _ => true
  | _ => false

/-- A node without an attribute that has a floating-point number. -/
def Node.IsFloatFree (n : Node) : Prop := ∀ entry ∈ n.attributes.entries, entry.2.isFloat = false

instance : DecidablePred Node.IsFloatFree := fun n =>
  inferInstanceAs (Decidable (∀ entry ∈ n.attributes.entries, entry.2.isFloat = false))

theorem OpKind.recovers (k : OpKind) : Recovers toValue ofValue? k :=
  .pair "name" "version_id" OpKind.mk (by decide) (.string k.name) (.string k.version) rfl
    fun _ => rfl

theorem OpType.recovers (t : OpType) : Recovers toValue ofValue? t := by
  have hlevels := Recovers.list t.levels fun k _ => k.recovers
  exact .single "chain" OpType.mk hlevels rfl fun _ => rfl

theorem Edge.recovers {e : Edge} (h : e.InRange) : Recovers toValue ofValue? e :=
  .pair "node" "index" Edge.mk (by decide) (.nat h.node) (.nat h.output) rfl fun _ => rfl

theorem Attribute.recovers {a : Attribute} (h : a.isFloat = false) :
    Recovers toValue ofValue? a := by
  cases a with
  | bool value => exact .variant "Bool" rfl (fun _ => rfl) (.bool value)
  | int value => exact .variant "Int" rfl (fun _ => rfl) (.int value)
  | float value => exact absurd h Bool.noConfusion
  | ints values =>
      exact .variant "Ints" rfl (fun _ => rfl) (.list values fun n _ => .int n)
  | str value => exact .variant "Str" rfl (fun _ => rfl) (.string value)

theorem Attribute.mapRecovers {m : NameMap Attribute}
    (h : ∀ entry ∈ m.entries, entry.2.isFloat = false) :
    Recovers mapToValue mapOfValue? m where
  written := by
    apply Value.Written.object
    intro member hmember
    obtain ⟨entry, hentry, rfl⟩ := List.mem_map.1 hmember
    exact (Attribute.recovers (h entry hentry)).written
  read_write := by
    have hentries : (m.entries.map fun entry => (entry.1, entry.2.toValue)).mapM
        (fun member => (ofValue? member.2).map (member.1, ·)) = some m.entries := by
      apply mapM_map_eq_some
      intro entry hentry
      rw [(Attribute.recovers (h entry hentry)).read_write, Option.map_some]
    exact (congrArg (Option.map NameMap.ofList) hentries).trans (congrArg some m.ofList_entries)

theorem Node.recovers {n : Node} (hrange : n.InRange) (hfloat : n.IsFloatFree) :
    Recovers toValue ofValue? n := by
  have hid := Recovers.nat hrange.id
  have htype := n.type.recovers
  have hname := Recovers.string n.name
  have hinputs := Recovers.list n.inputs fun e he => Edge.recovers (hrange.inputs e he)
  have hinputTypes := Recovers.list n.inputTypes fun t ht =>
    TensorType.recovers (hrange.types t (List.mem_append_left n.outputs ht))
  have houtputs := Recovers.list n.outputs fun t ht =>
    TensorType.recovers (hrange.types t (List.mem_append_right n.inputTypes ht))
  have hattributes := Attribute.mapRecovers hfloat
  have hvalue := Recovers.option (fun _ => Value.noConfusion) fun l hl =>
    Literal.recovers (hrange.value l hl)
  refine Recovers.record fieldNames _ (fun _ => rfl) rfl (by decide) rfl ?written ?fields
  case written =>
    simp only [List.forall_mem_cons]
    exact ⟨hid.written, htype.written, hname.written, hinputs.written, hinputTypes.written,
      houtputs.written, hattributes.written, hvalue.written, List.forall_mem_nil _⟩
  case fields =>
    simp only [required_ofValues, List.getElem?_cons_zero, List.getElem?_cons_succ,
      Option.bind_some, hid.read_write, htype.read_write, hname.read_write, hinputs.read_write,
      hinputTypes.read_write, houtputs.read_write, hattributes.read_write]
    rw [nullable_ofValues (show 7 < 8 by decide)]
    simp only [List.getElem_cons_succ, List.getElem_cons_zero, hvalue.read_write]
    rfl

/-! ## Graphs -/

theorem Graph.recovers {g : Graph} (hrange : ∀ n ∈ g.nodes, n.InRange)
    (hfloat : ∀ n ∈ g.nodes, n.IsFloatFree) : Recovers toValue ofValue? g := by
  have hnodes := Recovers.list g.nodes fun n hn => Node.recovers (hrange n hn) (hfloat n hn)
  exact .single "nodes" Graph.mk hnodes rfl fun _ => rfl

/-- The text of a graph without floating-point attributes holds the graph; and whatever text, symbol
or payload stands in it, each of its literals, types and extents is read back from a text of its own
as well. -/
theorem Graph.ofText?_toText {g : Graph} (hrange : ∀ n ∈ g.nodes, n.InRange)
    (hfloat : ∀ n ∈ g.nodes, n.IsFloatFree) :
    ofText? g.toText = some g ∧
      ∀ n ∈ g.nodes, (∀ l ∈ n.value, Survives Literal.toValue Literal.ofValue? l) ∧
        ∀ t ∈ n.types, Survives TensorType.toValue TensorType.ofValue? t ∧
          ∀ e ∈ t.shape.extents, Survives Extent.toValue Extent.ofValue? e := by
  refine ⟨(Graph.recovers hrange hfloat).survives, fun n hn => ⟨fun l hl => ?_, fun t ht =>
    ⟨?_, fun e he => ?_⟩⟩⟩
  · exact (Literal.recovers ((hrange n hn).value l hl)).survives
  · exact (TensorType.recovers ((hrange n hn).types t ht)).survives
  · exact (Extent.recovers ((hrange n hn).types t ht e he)).survives

/-- A graph with the largest positions and extents, the smallest integer, and texts with quotes,
control characters and characters beyond the basic plane. -/
def Graph.extreme : Graph :=
  ⟨[{ id := wordLimit - 1
      type := ⟨[⟨"Con\"cat", "opset\\1"⟩, ⟨"", ""⟩]⟩
      name := "\x00\x1f\x7f/😀"
      inputs := [⟨wordLimit - 1, 0⟩]
      inputTypes := [⟨.bf16, ⟨[.symbolic "n\n\"", .fixed (wordLimit - 1)]⟩⟩]
      outputs := [⟨.boolean, ⟨[]⟩⟩]
      attributes := .ofList [("\tmode", .str "\\u0041"), ("axes", .ints [-1, .minValue]),
        ("é", .bool false)]
      value := some ⟨.ofSizes .i32 [1], [0, 255, 128, 1]⟩ }]⟩

theorem Graph.ofText?_toText_extreme :
    (∀ n ∈ extreme.nodes, n.InRange) ∧ (∀ n ∈ extreme.nodes, n.IsFloatFree) ∧
      ofText? extreme.toText = some extreme ∧
        ∀ n ∈ extreme.nodes, (∀ l ∈ n.value, Survives Literal.toValue Literal.ofValue? l) ∧
          ∀ t ∈ n.types, Survives TensorType.toValue TensorType.ofValue? t ∧
            ∀ e ∈ t.shape.extents, Survives Extent.toValue Extent.ofValue? e :=
  have hrange : ∀ n ∈ extreme.nodes, n.InRange := by decide +kernel
  have hfloat : ∀ n ∈ extreme.nodes, n.IsFloatFree := by decide +kernel
  ⟨hrange, hfloat, ofText?_toText hrange hfloat⟩

end TensorLowering
