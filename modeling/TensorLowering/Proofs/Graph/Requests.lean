import TensorLowering.Proofs.Graph.Assembly

/-!
# Histories of requests

A graph is assembled by requests, any of which may be refused. A request is refused because of its
first edge that leads nowhere, and then the graph stays what it was; any other request puts one node
behind the ones that are there. So the graph is consistent after every history of requests.

## Main statements

* `Graph.nodeOf_eq_error_iff`: when a request is refused, and with which cause.
* `Assembly.consistent_history`: what holds after a history of requests, and what the next one does.
-/

namespace TensorLowering

/-- The edges into the node that a request describes. -/
def NodeRequest.edges : NodeRequest → List Edge
  | .parameter _ | .constant _ => []
  | .result input => [input]
  | .operation _ inputs _ _ => inputs

namespace Graph

/-- Why a new node cannot read an edge: there is no such node, or the node has no such output. -/
inductive Refuses (g : Graph) (name : String) (e : Edge) : GraphError → Prop
  | unknownProducer (missing : g.node? e.node = none) :
      Refuses g name e (.unknownProducer name e.node)
  | outputOutOfRange {producer : Node} (found : g.node? e.node = some producer)
      (missing : producer.outputs.length ≤ e.output) :
      Refuses g name e (.outputOutOfRange name producer.name e.output producer.outputs.length)

variable {g next : Graph} {name : String} {request : NodeRequest} {n : Node} {cause : GraphError}

theorem outputType_eq_error_iff {e : Edge} :
    g.outputType name e = .error cause ↔ g.Refuses name e cause := by
  rw [outputType]
  cases hproducer : g.node? e.node with
  | none =>
      constructor
      · intro h
        cases h
        exact .unknownProducer hproducer
      · rintro (_ | ⟨found, -⟩)
        · rfl
        · rw [hproducer] at found
          cases found
  | some producer =>
      simp only
      constructor
      · intro h
        split at h
        · next hmissing =>
          cases h
          exact .outputOutOfRange hproducer (List.getElem?_eq_none_iff.1 hmissing)
        · cases h
      · rintro (missing | ⟨found, missing⟩)
        · rw [hproducer] at missing
          cases missing
        · obtain rfl := Option.some.inj (hproducer.symm.trans found)
          rw [List.getElem?_eq_none missing]

/-- A new node reads all of its edges. -/
theorem nodeOf_eq_error_iff_mapM :
    g.nodeOf name request = .error cause ↔ request.edges.mapM (g.outputType name) = .error cause := by
  cases request with
  | parameter type =>
      constructor <;>
      · intro h
        cases h
  | constant literal =>
      constructor <;>
      · intro h
        cases h
  | result input =>
      have hedges : (NodeRequest.result input).edges.mapM (g.outputType name) =
          g.outputType name input >>= fun type => pure [type] := by
        rw [NodeRequest.edges, List.mapM_cons, List.mapM_nil]
        simp only [pure_bind]
      rw [hedges, Outcome.bind_pure_eq_error_iff]
      exact Outcome.bind_pure_eq_error_iff
  | operation type inputs outputs attributes => exact Outcome.bind_pure_eq_error_iff

/-- A request is refused because of its first edge that leads nowhere. -/
theorem nodeOf_eq_error_iff :
    g.nodeOf name request = .error cause ↔ ∃ before e after, request.edges = before ++ e :: after ∧
      (∀ e' ∈ before, ∃ type, g.Leads g.size e' type) ∧ g.Refuses name e cause := by
  rw [nodeOf_eq_error_iff_mapM, Outcome.mapM_eq_error_iff]
  simp only [outputType_eq_ok_iff, outputType_eq_error_iff]

/-- The node that a request describes has the name and the edges that were asked for, all of which lead
into the graph. -/
theorem edges_of_nodeOf (h : g.nodeOf name request = .ok n) :
    n.name = name ∧ n.inputs = request.edges := by
  cases request with
  | parameter type =>
      cases h
      exact ⟨rfl, rfl⟩
  | constant literal =>
      cases h
      exact ⟨rfl, rfl⟩
  | result input =>
      obtain ⟨type, -, h⟩ := Outcome.bind_eq_ok_iff.1 h
      obtain rfl := Outcome.pure_eq_ok_iff.1 h
      exact ⟨rfl, rfl⟩
  | operation type inputs outputs attributes =>
      obtain ⟨inputTypes, -, h⟩ := Outcome.bind_eq_ok_iff.1 h
      obtain rfl := Outcome.pure_eq_ok_iff.1 h
      exact ⟨rfl, rfl⟩

end Graph

namespace Assembly

open TensorLowering.Graph

variable {g : Graph} {requests : List (String × NodeRequest)}

/-- A request is refused before it changes anything. -/
theorem run_add (g : Graph) (name : String) (request : NodeRequest) :
    (add name request).run.run g =
      match g.nodeOf name request with
      | .error cause => (.error cause, g)
      | .ok n => (.ok g.size, ⟨g.nodes ++ [n]⟩) := by
  have hlift : ∀ x : Except GraphError Node, (liftM x : Assembly Node).run.run g = (x, g) := by
    intro x
    cases x <;> rfl
  change (do
    let n ← (liftM (g.nodeOf name request) : Assembly Node)
    set (⟨g.nodes ++ [n]⟩ : Graph)
    pure g.size : Assembly Nat).run.run g = _
  rw [ExceptT.run_bind, StateT.run_bind, hlift]
  cases g.nodeOf name request <;> rfl

theorem run_addAll_cons (request : String × NodeRequest) (requests : List (String × NodeRequest))
    (g : Graph) :
    (addAll (request :: requests)).run g =
      let first := (add request.1 request.2).run.run g
      let rest := (addAll requests).run first.2
      (first.1 :: rest.1, rest.2) := by
  rw [addAll, List.mapM_cons]
  rfl

theorem run_addAll_append_singleton (requests : List (String × NodeRequest))
    (request : String × NodeRequest) (g : Graph) :
    (addAll (requests ++ [request])).run g =
      let before := (addAll requests).run g
      let last := (add request.1 request.2).run.run before.2
      (before.1 ++ [last.1], last.2) := by
  induction requests generalizing g with
  | nil => rfl
  | cons first requests ih => simp only [List.cons_append, run_addAll_cons, ih]

/-- One request keeps a graph consistent, whatever its answer is. -/
theorem consistent_add (hg : g.Consistent) (name : String) (request : NodeRequest) :
    ((add name request).run.run g).2.Consistent := by
  rw [run_add]
  cases h : g.nodeOf name request with
  | error cause => exact hg
  | ok n => exact hg.append (append_eq_ok_iff.2 ⟨n, h, rfl⟩)

/-- A history of requests keeps a graph consistent. -/
theorem consistent_addAll (hg : g.Consistent) (requests : List (String × NodeRequest)) :
    ((addAll requests).run g).2.Consistent := by
  induction requests generalizing g with
  | nil => exact hg
  | cons request requests ih =>
      rw [run_addAll_cons]
      exact ih (consistent_add hg request.1 request.2)

/-- After every history of requests the graph is consistent: nodes know their positions, and their
edges lead to outputs of earlier nodes that have the types of the inputs. The next request either is
refused because of its first edge that leads nowhere, and leaves the graph as it is; or all of its
edges lead to outputs, and it puts one node at the end and answers the position of the node. -/
theorem consistent_history (requests : List (String × NodeRequest)) (name : String)
    (request : NodeRequest) :
    let g := ((addAll requests).run empty).2
    let (answer, next) := (add name request).run.run g
    g.Consistent ∧ ((addAll (requests ++ [(name, request)])).run empty).2 = next ∧
      match answer with
      | .error cause => next = g ∧ ∃ before e after, request.edges = before ++ e :: after ∧
          (∀ e' ∈ before, ∃ type, g.Leads g.size e' type) ∧ g.Refuses name e cause
      | .ok i => i = g.size ∧ (∀ e ∈ request.edges, ∃ type, g.Leads g.size e type) ∧
          ∃ n, next.nodes = g.nodes ++ [n] ∧ n.name = name ∧ n.inputs = request.edges := by
  intro g
  have hg : g.Consistent := consistent_addAll consistent_empty requests
  have hnext : ((addAll (requests ++ [(name, request)])).run empty).2 =
      ((add name request).run.run g).2 := by
    rw [run_addAll_append_singleton]
  rw [hnext, run_add]
  cases h : g.nodeOf name request with
  | error cause => exact ⟨hg, rfl, rfl, nodeOf_eq_error_iff.1 h⟩
  | ok n =>
      obtain ⟨hname, hinputs⟩ := edges_of_nodeOf h
      have hleads := (nodeOf_eq_ok h).2
      refine ⟨hg, rfl, rfl, fun e he => ?_, n, rfl, hname, hinputs⟩
      obtain ⟨a, ha⟩ := List.mem_iff_getElem?.1 (hinputs ▸ he)
      obtain ⟨type, -, hlead⟩ := exists_right_of_forall₂ hleads ha
      exact ⟨type, hlead⟩

/-- A refused request in the middle of a history. -/
example : ((addAll [("x", .parameter (.ofSizes .f32 [4])),
      ("e", .operation (.single Opset.erf) [⟨0, 0⟩, ⟨0, 1⟩] [.ofSizes .f32 [4]] .empty),
      ("y", .result ⟨0, 0⟩)]).run empty).1 =
    [.ok 0, .error (.outputOutOfRange "e" "x" 1 1), .ok 1] := rfl

end Assembly

end TensorLowering
