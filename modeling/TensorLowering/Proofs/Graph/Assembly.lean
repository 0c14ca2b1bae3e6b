import Mathlib.Data.List.Induction
import TensorLowering.Graph.Assembly
import TensorLowering.Proofs.Outcome

/-!
# Assembled graphs are consistent

In a graph that was assembled node by node, every node knows its own position, and every edge leads
to an output of an earlier node whose type is the input type.
-/

namespace TensorLowering

namespace Graph

/-- An edge leads to an output of a node in front of a position, and that output has the type. -/
def Leads (g : Graph) (i : Nat) (e : Edge) (type : TensorType) : Prop :=
  e.node < i ∧ ∃ producer, g.nodes[e.node]? = some producer ∧
    producer.outputs[e.output]? = some type

/-- Nodes know their positions, and edges lead to outputs of earlier nodes. -/
structure Consistent (g : Graph) : Prop where
  id_eq : ∀ i (n : Node), g.nodes[i]? = some n → n.id = i
  leads : ∀ i (n : Node), g.nodes[i]? = some n → List.Forall₂ (g.Leads i) n.inputs n.inputTypes

variable {g next : Graph} {name : String} {request : NodeRequest} {n : Node}

theorem outputType_eq_ok_iff {consumer : String} {e : Edge} {type : TensorType} :
    g.outputType consumer e = .ok type ↔ g.Leads g.size e type := by
  rw [outputType, Leads, node?, size]
  rcases hproducer : g.nodes[e.node]? with _ | producer
  · simp
  · have hlt : e.node < g.nodes.length := (List.getElem?_eq_some_iff.1 hproducer).1
    rcases houtput : producer.outputs[e.output]? with _ | type' <;> simp [hlt, houtput]

/-- A new node has the next position, and its edges lead into the graph. -/
theorem nodeOf_eq_ok (h : g.nodeOf name request = .ok n) :
    n.id = g.size ∧ List.Forall₂ (g.Leads g.size) n.inputs n.inputTypes := by
  cases request with
  | parameter type =>
      cases h
      exact ⟨rfl, .nil⟩
  | constant literal =>
      cases h
      exact ⟨rfl, .nil⟩
  | result input =>
      obtain ⟨type, htype, h⟩ := Outcome.bind_eq_ok_iff.1 h
      obtain rfl := Outcome.pure_eq_ok_iff.1 h
      exact ⟨rfl, .cons (outputType_eq_ok_iff.1 htype) .nil⟩
  | operation type inputs outputs attributes =>
      obtain ⟨inputTypes, htypes, h⟩ := Outcome.bind_eq_ok_iff.1 h
      obtain rfl := Outcome.pure_eq_ok_iff.1 h
      exact ⟨rfl, (Outcome.mapM_eq_ok_iff.1 htypes).imp fun _ _ => outputType_eq_ok_iff.1⟩

theorem append_eq_ok_iff :
    g.append name request = .ok next ↔
      ∃ n, g.nodeOf name request = .ok n ∧ next = ⟨g.nodes ++ [n]⟩ := by
  simp only [append, Outcome.bind_eq_ok_iff, Outcome.pure_eq_ok_iff, eq_comm (b := next)]

/-- Edges into a graph lead to the same outputs after it has grown. -/
theorem Leads.append {i : Nat} {e : Edge} {type : TensorType} (h : g.Leads i e type) (n : Node) :
    (⟨g.nodes ++ [n]⟩ : Graph).Leads i e type := by
  obtain ⟨hlt, producer, hproducer, houtput⟩ := h
  refine ⟨hlt, producer, ?_, houtput⟩
  have hbound : e.node < g.nodes.length := (List.getElem?_eq_some_iff.1 hproducer).1
  rw [List.getElem?_append_left hbound]
  exact hproducer

theorem Consistent.append (hg : g.Consistent) (h : g.append name request = .ok next) :
    next.Consistent := by
  obtain ⟨n, hn, rfl⟩ := append_eq_ok_iff.1 h
  obtain ⟨hid, hleads⟩ := nodeOf_eq_ok hn
  -- a position is either one of the graph before, or that of the new node
  have hcases : ∀ i m, (g.nodes ++ [n])[i]? = some m →
      g.nodes[i]? = some m ∨ i = g.size ∧ m = n := by
    intro i m hm
    rcases getElem?_append_singleton_cases hm with ⟨-, hold⟩ | ⟨hi, hnew⟩
    · exact .inl hold
    · exact .inr ⟨hi, hnew.symm⟩
  constructor
  · intro i m hm
    rcases hcases i m hm with hold | ⟨rfl, rfl⟩
    · exact hg.id_eq i m hold
    · exact hid
  · intro i m hm
    rcases hcases i m hm with hold | ⟨rfl, rfl⟩
    · exact (hg.leads i m hold).imp fun _ _ hlead => hlead.append n
    · exact hleads.imp fun _ _ hlead => hlead.append m

/-- One more request is added to what the requests before it give. -/
theorem ofRequests_append_singleton_eq_ok_iff {requests : List (String × NodeRequest)}
    {request : String × NodeRequest} :
    ofRequests (requests ++ [request]) = .ok g ↔
      ∃ before, ofRequests requests = .ok before ∧ before.append request.1 request.2 = .ok g := by
  rw [ofRequests, Outcome.foldlM_append_eq_ok_iff]
  simp only [List.foldlM_cons, List.foldlM_nil, bind_pure]
  rfl

theorem consistent_empty : empty.Consistent := by
  constructor
  · intro i n hn
    simp [empty] at hn
  · intro i n hn
    simp [empty] at hn

/-- An assembled graph is consistent. -/
theorem consistent_of_ofRequests {requests : List (String × NodeRequest)}
    (h : ofRequests requests = .ok g) : g.Consistent := by
  induction requests using List.reverseRecOn generalizing g with
  | nil =>
      cases h
      exact consistent_empty
  | append_singleton requests request ih =>
      obtain ⟨before, hbefore, happend⟩ := ofRequests_append_singleton_eq_ok_iff.1 h
      exact (ih hbefore).append happend

/-- Every node of an assembled graph is one that a request describes. -/
theorem exists_request_of_mem {requests : List (String × NodeRequest)}
    (h : ofRequests requests = .ok g) (hn : n ∈ g.nodes) :
    ∃ before, ∃ request ∈ requests, nodeOf before request.1 request.2 = .ok n := by
  induction requests using List.reverseRecOn generalizing g with
  | nil =>
      cases h
      cases hn
  | append_singleton requests request ih =>
      obtain ⟨before, hbefore, happend⟩ := ofRequests_append_singleton_eq_ok_iff.1 h
      obtain ⟨new, hnew, rfl⟩ := append_eq_ok_iff.1 happend
      rcases List.mem_append.1 hn with hold | hlast
      · obtain ⟨g', request', hrequest', hnode⟩ := ih hbefore hold
        exact ⟨g', request', List.mem_append_left _ hrequest', hnode⟩
      · obtain rfl := List.mem_singleton.1 hlast
        exact ⟨before, request, List.mem_append_right _ (List.mem_singleton_self _), hnew⟩

namespace Consistent

variable {i : Nat}

/-- An edge of a node leads to an earlier node, which has the output. -/
theorem leads_of_mem (hg : g.Consistent) (hn : g.nodes[i]? = some n) {e : Edge}
    (he : e ∈ n.inputs) :
    ∃ type, g.Leads i e type := by
  obtain ⟨a, ha⟩ := List.mem_iff_getElem?.1 he
  obtain ⟨hlt, rfl⟩ := List.getElem?_eq_some_iff.1 ha
  have hall := hg.leads i n hn
  exact ⟨_, hall.get hlt (hall.length_eq ▸ hlt)⟩

/-- An input type is the type of the output that the edge leads to. -/
theorem leads_of_getElem? (hg : g.Consistent) (hn : g.nodes[i]? = some n) {a : Nat} {e : Edge}
    (he : n.inputs[a]? = some e) : ∃ type, n.inputTypes[a]? = some type ∧ g.Leads i e type := by
  obtain ⟨hlt, rfl⟩ := List.getElem?_eq_some_iff.1 he
  have hall := hg.leads i n hn
  have hlt' : a < n.inputTypes.length := hall.length_eq ▸ hlt
  exact ⟨_, List.getElem?_eq_getElem hlt', hall.get hlt hlt'⟩

end Consistent

/-- Two matrices, their product, and a result. -/
def productRequests : List (String × NodeRequest) :=
  [("a", .parameter (.ofSizes .f32 [2, 3])), ("b", .parameter (.ofSizes .f32 [3, 2])),
    ("c", .operation (.single Opset.matMul) [⟨0, 0⟩, ⟨1, 0⟩] [.ofSizes .f32 [2, 2]] .empty),
    ("r", .result ⟨2, 0⟩)]

/-- The graph of a matrix product. -/
def product : Graph :=
  ⟨[⟨0, .single Opset.parameter, "a", [], [], [.ofSizes .f32 [2, 3]], .empty, none⟩,
    ⟨1, .single Opset.parameter, "b", [], [], [.ofSizes .f32 [3, 2]], .empty, none⟩,
    ⟨2, .single Opset.matMul, "c", [⟨0, 0⟩, ⟨1, 0⟩], [.ofSizes .f32 [2, 3], .ofSizes .f32 [3, 2]],
      [.ofSizes .f32 [2, 2]], .empty, none⟩,
    ⟨3, .single Opset.result, "r", [⟨2, 0⟩], [.ofSizes .f32 [2, 2]], [.ofSizes .f32 [2, 2]], .empty,
      none⟩]⟩

theorem ofRequests_productRequests : ofRequests productRequests = .ok product := rfl

end Graph

end TensorLowering
