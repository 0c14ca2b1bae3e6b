import Mathlib.Data.List.Nodup
import TensorLowering.Proofs.Lowering.Identifiers
import TensorLowering.Proofs.Lowering.Naming
import TensorLowering.Proofs.Lowering.Order

/-!
# What is supported is lowered

A support query judges every node on its own, while a build also asks that all identifiers differ
and that every input is found. When the query reports every name as supported, a graph of distinct
identities is lowered exactly when no node hides another of its name from the query and no product
derives an identifier that is the identity of another node.

## Implementation notes

`Lowerer.Advanced` is the invariant of a build that has got to a position: its primitives have
identifiers of the nodes before, and whatever an edge can refer to there has been noted.

## Main statements

* `Lowerer.Advanced.exists_succ`: a supported node can be lowered next.
* `Lowerer.lower_iff_of_approves`: when a graph that the query approves of is lowered.
-/

namespace TensorLowering

/-- What is known to an identity map behind the notes of a node. -/
theorem IdentityMap.exists_get?_noteAll_iff {identity key : String} {ids : IdentityMap}
    {noted : List String} :
    (∃ id, (noteAll identity ids noted).get? key = some id) ↔
      key = identity ∧ noted ≠ [] ∨ key ∈ noted ∨ ∃ id, ids.get? key = some id := by
  rw [get?_noteAll]
  by_cases hidentity : key = identity
  · rcases hlast : noted.getLast? with _ | last
    · obtain rfl := List.getLast?_eq_none_iff.1 hlast
      simp
    · have hne : noted ≠ [] := by
        rintro rfl
        cases hlast
      simp [hidentity, hne]
  · by_cases hmem : key ∈ noted <;> simp [hidentity, hmem]

namespace Lowerer

open Build

variable {l : Lowerer} {g : Graph} {options : BuildOptions} {i : Nat} {n : Node} {s : BuildState}

/-- The query approves of a graph of opset operations: the identities of the nodes differ, only
splits have several outputs, and every name is reported as supported. -/
structure Approves (l : Lowerer) (g : Graph) : Prop where
  inOpset : g.InOpset
  distinct : (g.nodes.map Node.identity?).Nodup
  outputs : ∀ n ∈ g.nodes, 1 < n.outputs.length → n.isSplit = true
  support : ∃ verdicts, l.support g = .ok verdicts ∧
    ∀ n ∈ g.nodes, verdicts.get? n.name = some true

/-- Every verdict is that of some node of the name. -/
theorem exists_isSupported_of_support {verdicts : NameMap Bool} (h : l.support g = .ok verdicts)
    {name : String} {verdict : Bool} (hverdict : verdicts.get? name = some verdict) :
    ∃ n ∈ g.nodes, n.name = name ∧ l.isSupported g n.id = .ok verdict := by
  rw [support] at h
  generalize g.nodes = nodes at h
  induction nodes using List.reverseRecOn generalizing verdicts with
  | nil =>
      rw [List.foldlM_nil, Outcome.pure_eq_ok_iff] at h
      subst h
      cases hverdict
  | append_singleton nodes n ih =>
      obtain ⟨before, hbefore, hlast⟩ := Outcome.foldlM_append_eq_ok_iff.1 h
      rw [List.foldlM_cons, Outcome.bind_eq_ok_iff] at hlast
      obtain ⟨after, hafter, hnil⟩ := hlast
      rw [List.foldlM_nil, Outcome.pure_eq_ok_iff] at hnil
      obtain ⟨b, hb, hinsert⟩ := Outcome.bind_eq_ok_iff.1 hafter
      obtain rfl := Outcome.pure_eq_ok_iff.1 hinsert
      subst hnil
      rw [NameMap.get?_insert] at hverdict
      by_cases hname : name = n.name
      · rw [if_pos hname] at hverdict
        obtain rfl := Option.some.inj hverdict
        exact ⟨n, List.mem_append_right _ (List.mem_singleton_self n), hname.symm, hb⟩
      · rw [if_neg hname] at hverdict
        obtain ⟨m, hm, hmname, hmb⟩ := ih hverdict hbefore
        exact ⟨m, List.mem_append_left _ hm, hmname, hmb⟩

/-- A supported node can be lowered in an empty build. -/
theorem lowers_of_isSupported (hregistry : l.registry = .standard) (hg : g.Consistent)
    (hn : g.nodes[i]? = some n) (h : l.isSupported g n.id = .ok true) :
    ∃ ps final, l.Lowers (l.queryContext g n) n .empty ps final := by
  have hnode : g.node? n.id = some n := by rw [hg.id_eq i n hn, Graph.node?, hn]
  have hprobe : l.probe g n.id = .ok () := by
    rw [isSupported] at h
    split at h
    · next hok => exact hok
    · cases h
    · cases h
  have hends : Ends (l.lowerNode (l.queryContext g n) n) .empty ()
      (runFrom (l.lowerNode (l.queryContext g n) n) .empty).2 := by
    rw [probe, hnode] at hprobe
    exact Prod.ext hprobe rfl
  obtain ⟨ps, hps⟩ := (ends_lowerNode_iff hregistry).1 hends
  exact ⟨ps, _, hps⟩

/-- Under the legacy inference of the graph the first output of a node has no symbols. -/
theorem exists_sizes_of_legacy (h : (l.context g options).newShapeInference = false)
    (hn : n ∈ g.nodes) {type : TensorType} (houtput : n.outputs[0]? = some type) :
    ∃ sizes, type.shape.sizes? = some sizes := by
  change l.regime g options = false at h
  rw [regime, Bool.or_eq_false_iff, List.any_eq_false] at h
  exact n.exists_sizes_of_needsNewShapeInference_eq_false (by simpa using h.1 n hn) houtput

namespace Lowers

variable {ctx : BuildContext} {s' : BuildState} {ps : List Primitive}

/-- Lowering a node adds its own identifiers. -/
theorem exists_ids (h : l.Lowers ctx n s ps s') (hoverlay : l.overlay = .empty)
    (hopset : n.InOpset) :
    ∃ a, n.identity = .ok a ∧
      ∀ id, id ∈ s'.topology.ids ↔ id ∈ s.topology.ids ∨ id ∈ ctx.ownIds n a := by
  obtain @⟨label, identity, r, sources, -, hidentity, hruled, -, hemits, hadds⟩ := h
  refine ⟨identity, hidentity, ?_⟩
  intro id
  rw [Topology.ids, hadds.primitives_eq, List.map_append, List.mem_append, List.map_map,
    ← id_mem_ownIds_iff hoverlay hopset hruled hemits]
  rfl

/-- What was known stays known. -/
theorem exists_get? (h : l.Lowers ctx n s ps s') {key id : String}
    (hkey : s.ids.get? key = some id) : ∃ id', s'.ids.get? key = some id' := by
  obtain ⟨-, -, -, -, -, hadds⟩ := h
  rw [hadds.ids_eq, IdentityMap.exists_get?_noteAll_iff]
  exact .inr (.inr ⟨id, hkey⟩)

/-- What an edge from a node can refer to is known behind the node. -/
theorem exists_target (h : l.Lowers ctx n s ps s') (hoverlay : l.overlay = .empty)
    (hopset : n.InOpset) (houtputs : 1 < n.outputs.length → n.isSplit = true) {e : Edge}
    (houtput : e.output < n.outputs.length) {newShapeInference : Bool} {target : Source}
    (htarget : e.target n newShapeInference = .ok target) :
    ∃ id, s'.ids.get? target.id = some id := by
  obtain @⟨label, identity, r, sources, -, hidentity, hruled, -, hemits, hadds⟩ := h
  obtain ⟨a, ha, rfl⟩ := Edge.target_eq_ok_iff.1 htarget
  obtain rfl := Except.ok.inj (hidentity.symm.trans ha)
  have hown : ∀ id, id ∈ ps.map Primitive.id ↔ id ∈ ctx.ownIds n identity := fun _ =>
    id_mem_ownIds_iff hoverlay hopset hruled hemits
  have hcrop : n.isSplit = true → identity ++ outputSuffix e.output ∈ ps.map Primitive.id := by
    intro hsplit
    rw [hown, BuildContext.ownIds, if_pos hsplit]
    exact List.mem_map_of_mem (List.mem_range.2 houtput)
  rw [hadds.ids_eq, IdentityMap.exists_get?_noteAll_iff]
  cases hseveral : n.hasOutputIdentities newShapeInference with
  | true =>
      rw [Node.hasOutputIdentities, Bool.and_eq_true, decide_eq_true_eq] at hseveral
      exact .inr (.inl (hcrop (houtputs hseveral.1)))
  | false =>
      refine .inl ⟨rfl, ?_⟩
      cases hsplit : n.isSplit with
      | true => exact List.ne_nil_of_mem (hcrop hsplit)
      | false =>
          have hmem : identity ∈ ps.map Primitive.id := by
            rw [hown, BuildContext.ownIds, hsplit]
            exact List.mem_cons_self
          exact List.ne_nil_of_mem hmem

end Lowers

/-- A build that has got to a position. -/
structure Advanced (l : Lowerer) (g : Graph) (options : BuildOptions) (i : Nat) (s : BuildState) :
    Prop where
  ends : Ends ((g.nodes.take i).forM (l.lowerNode (l.context g options))) .empty () s
  grounded : s.Grounded
  /-- Every primitive has an identifier of an earlier node. -/
  owned : ∀ id ∈ s.topology.ids, ∃ (j : Nat) (n : Node) (a : String), j < i ∧
    g.nodes[j]? = some n ∧ n.identity = .ok a ∧ id ∈ (l.context g options).ownIds n a
  /-- What an edge from an earlier node can refer to is known. -/
  noted : ∀ (e : Edge) (producer : Node) (target : Source), e.node < i →
    g.nodes[e.node]? = some producer → e.output < producer.outputs.length →
    e.target producer (l.regime g options) = .ok target → ∃ id, s.ids.get? target.id = some id

theorem advanced_zero (l : Lowerer) (g : Graph) (options : BuildOptions) :
    l.Advanced g options 0 .empty where
  ends := ends_pure_iff.2 ⟨rfl, rfl⟩
  grounded := BuildState.grounded_empty
  owned := by simp [BuildState.empty, Topology.empty, Topology.ids]
  noted e _ _ he := absurd he (Nat.not_lt_zero _)

/-- A build that has got to the end is lowered. -/
theorem Advanced.exists_lowered (h : l.Advanced g options g.size s) :
    ∃ lowered, l.lower g options = .ok lowered := by
  have hends := h.ends
  rw [Graph.size, List.take_length] at hends
  obtain ⟨order, hschedule⟩ := Topology.schedule_of_inOrder h.grounded.ordered
  exact ⟨_, lower_eq_ok_iff.2 ⟨s, hends, (Topology.schedule_eq_ok_iff.1 hschedule).1, rfl⟩⟩

section

variable (hregistry : l.registry = .standard) (hoverlay : l.overlay = .empty) (hg : g.Consistent)
  (happroves : l.Approves g) (hfresh : g.DerivesFresh (l.context g options))
  (hsupported : ∀ n ∈ g.nodes, l.isSupported g n.id = .ok true)

include hregistry hg hsupported in
/-- The inputs of the next node are resolved. -/
theorem Advanced.exists_sources (h : l.Advanced g options i s) (hn : g.nodes[i]? = some n) :
    ∃ sources, (l.context g options).inputs s.ids n = .ok sources := by
  apply Outcome.exists_mapM_eq_ok
  intro e he
  obtain ⟨type, hearlier, producer, hproducer, houtput⟩ := hg.leads_of_mem hn he
  obtain ⟨-, -, -, hidentity, -⟩ := lowers_of_isSupported hregistry hg hproducer
    (hsupported _ (List.mem_of_getElem? hproducer))
  obtain ⟨target, htarget⟩ : ∃ target, e.target producer (l.regime g options) = .ok target :=
    ⟨_, Edge.target_eq_ok_iff.2 ⟨_, hidentity, rfl⟩⟩
  obtain ⟨id, hid⟩ := h.noted e producer target hearlier hproducer
    (List.getElem?_eq_some_iff.1 houtput).1 htarget
  exact ⟨⟨id, target.output⟩, Edge.resolve_eq_ok_iff.2
    ⟨producer, target, hproducer, htarget, hid, rfl⟩⟩

include happroves in
/-- Nodes of one identity are one node. -/
theorem eq_of_identity {j : Nat} {m : Node} (hn : g.nodes[i]? = some n) (hm : g.nodes[j]? = some m)
    {a : String} (ha : n.identity = .ok a) (hb : m.identity = .ok a) : i = j := by
  have hlt := (List.getElem?_eq_some_iff.1 hn).1
  have hidentities : (g.nodes.map Node.identity?)[i]? = (g.nodes.map Node.identity?)[j]? := by
    rw [List.getElem?_map, List.getElem?_map, hn, hm, Option.map_some, Option.map_some,
      Outcome.ofOption_eq_ok_iff.1 ha, Outcome.ofOption_eq_ok_iff.1 hb]
  exact (List.getElem?_inj (by simpa using hlt) happroves.distinct).1 hidentities

include happroves hfresh in
/-- No identifier of the next node is in use. -/
theorem Advanced.notMem_ids (h : l.Advanced g options i s) (hn : g.nodes[i]? = some n)
    {a id : String} (ha : n.identity = .ok a) (hown : id ∈ (l.context g options).ownIds n a) :
    id ∉ s.topology.ids := by
  intro hold
  obtain ⟨j, m, b, hj, hm, hb, howned⟩ := h.owned id hold
  obtain rfl := hfresh.eq_of_mem_ownIds happroves.inOpset (List.mem_of_getElem? hn)
    (List.mem_of_getElem? hm) ha hb hown howned
  have hij := eq_of_identity happroves hn hm ha hb
  omega

include hregistry hoverlay hg happroves hfresh hsupported in
/-- A supported node can be lowered next. -/
theorem Advanced.exists_lowers (h : l.Advanced g options i s) (hn : g.nodes[i]? = some n) :
    ∃ ps s', l.Lowers (l.context g options) n s ps s' := by
  have hmem := List.mem_of_getElem? hn
  obtain ⟨sources, hsources⟩ := h.exists_sources hregistry hg hsupported hn
  obtain ⟨queried, final, @⟨label, identity, r, others, hlabel, hidentity, hruled, hothers, hquery,
    hadds⟩⟩ := lowers_of_isSupported hregistry hg hn (hsupported n hmem)
  have hlength : sources.length = others.length := by
    rw [BuildContext.length_inputs hsources, BuildContext.length_inputs hothers]
  have hsame : (l.queryContext g n).SameBuild (l.context g options) := ⟨rfl, rfl, rfl⟩
  obtain ⟨ps, hemits, hnodup⟩ := hquery.transfer hsame hlength
    (fun hlegacy _ houtput => exists_sizes_of_legacy hlegacy hmem houtput) hadds.nodup_ids
  have hnew : ∀ p ∈ ps, p.id ∉ s.topology.ids := by
    intro p hp
    apply h.notMem_ids happroves hfresh hn hidentity
    exact (id_mem_ownIds_iff hoverlay (happroves.inOpset n hmem) hruled hemits).1
      (List.mem_map_of_mem hp)
  obtain ⟨s', hadded⟩ := BuildState.Adds.exists_of_fresh hnew hnodup
  exact ⟨ps, s', hlabel, hidentity, hruled, hsources, hemits, hadded⟩

include hregistry hoverlay hg happroves hfresh hsupported in
/-- Lowering a supported node gets a build one position further. -/
theorem Advanced.exists_succ (h : l.Advanced g options i s) (hi : i < g.size) :
    ∃ s', l.Advanced g options (i + 1) s' := by
  have hn : g.nodes[i]? = some g.nodes[i] := List.getElem?_eq_getElem hi
  have hmem := List.mem_of_getElem? hn
  have hopset := happroves.inOpset _ hmem
  obtain ⟨ps, s', hlowers⟩ := h.exists_lowers hregistry hoverlay hg happroves hfresh hsupported hn
  refine ⟨s', ?_, hlowers.grounded rfl h.grounded, ?_, ?_⟩
  · have hnext := (ends_lowerNode_iff hregistry).2 ⟨ps, hlowers⟩
    exact (ends_forM_take_succ_iff hn).2 ⟨s, h.ends, hnext⟩
  · intro id hid
    obtain ⟨identity, hidentity, hids⟩ := hlowers.exists_ids hoverlay hopset
    rcases (hids id).1 hid with hold | hnew
    · obtain ⟨j, m, b, hj, hm, hb, hold⟩ := h.owned id hold
      exact ⟨j, m, b, by omega, hm, hb, hold⟩
    · exact ⟨i, _, identity, Nat.lt_succ_self i, hn, hidentity, hnew⟩
  · intro e producer target he hproducer houtput htarget
    rcases Nat.lt_or_ge e.node i with hlt | hge
    · obtain ⟨id, hid⟩ := h.noted e producer target hlt hproducer houtput htarget
      exact hlowers.exists_get? hid
    · obtain rfl : e.node = i := by omega
      obtain rfl := Option.some.inj (hn.symm.trans hproducer)
      exact hlowers.exists_target hoverlay hopset (happroves.outputs _ hmem) houtput htarget

include hregistry hoverlay hg happroves hfresh hsupported in
/-- A build of supported nodes gets to every position. -/
theorem exists_advanced (hi : i ≤ g.size) : ∃ s, l.Advanced g options i s := by
  induction i with
  | zero => exact ⟨.empty, advanced_zero l g options⟩
  | succ i ih =>
      obtain ⟨s, hs⟩ := ih (Nat.le_of_succ_le hi)
      exact hs.exists_succ hregistry hoverlay hg happroves hfresh hsupported hi

end

section

variable {lowered : Lowered} (h : l.lower g options = .ok lowered)
  (hregistry : l.registry = .standard) (hoverlay : l.overlay = .empty)
include h hregistry hoverlay

/-- A lowered product has a primitive under each identifier that it derives. -/
theorem exists_emitted_derived (hn : g.nodes[i]? = some n) (hopset : n.InOpset) {a id : String}
    (ha : n.identity = .ok a) (hid : id ∈ (l.context g options).derivedIds n a) :
    ∃ p ∈ l.emitted g options i, p.id = id := by
  obtain ⟨label, r, sources, ps, -, hruled, hemits, hemitted⟩ := exists_emits h hregistry hn ha
  have hown : id ∈ (l.context g options).ownIds n a := by
    rw [BuildContext.ownIds,
      hopset.isSplit_of_isA (by decide) (BuildContext.derivedIds_cases hid).1]
    exact List.mem_cons_of_mem _ hid
  rw [← id_mem_ownIds_iff hoverlay hopset hruled hemits] at hown
  obtain ⟨p, hp, rfl⟩ := List.mem_map.1 hown
  exact ⟨p.labelled label a, hemitted ▸ List.mem_map_of_mem hp, rfl⟩

/-- What a product derives is no identity when the graph is lowered. -/
theorem derivesFresh_of_lower (hopset : g.InOpset) : g.DerivesFresh (l.context g options) := by
  intro n hn a ha id hid m hm hsplit hb
  have hnopset := hopset n hn
  obtain ⟨i, hi⟩ := List.mem_iff_getElem?.1 hn
  obtain ⟨j, hj⟩ := List.mem_iff_getElem?.1 hm
  obtain ⟨p, hp, hpid⟩ := exists_emitted_derived h hregistry hoverlay hi hnopset ha hid
  obtain ⟨q, hq, hqid⟩ := exists_emitted_identity h hregistry hoverlay hj (hopset m hm) hb hsplit
  have hij := eq_of_emitted_id_eq h hregistry (List.getElem?_eq_some_iff.1 hi).1
    (List.getElem?_eq_some_iff.1 hj).1 hp hq (hpid.trans hqid.symm)
  subst hij
  obtain rfl := Option.some.inj (hi.symm.trans hj)
  obtain rfl := Except.ok.inj (ha.symm.trans hb)
  exact BuildContext.identity_notMem_derivedIds hnopset ha hid

end

/-- When the query approves of a graph, it is lowered exactly when the nodes of one name have one
verdict and no product derives an identifier that is the identity of a node. -/
theorem lower_iff_of_approves {requests : List (String × NodeRequest)}
    (hregistry : l.registry = .standard) (hoverlay : l.overlay = .empty)
    (hg : Graph.ofRequests requests = .ok g) (happroves : l.Approves g) :
    (∃ lowered, l.lower g options = .ok lowered) ↔
      (∀ n ∈ g.nodes, ∀ m ∈ g.nodes, n.name = m.name →
        l.isSupported g n.id = l.isSupported g m.id) ∧
      g.DerivesFresh (l.context g options) := by
  have hconsistent := Graph.consistent_of_ofRequests hg
  constructor
  · rintro ⟨lowered, h⟩
    refine ⟨?_, derivesFresh_of_lower h hregistry hoverlay happroves.inOpset⟩
    have hsupported : ∀ n ∈ g.nodes, l.isSupported g n.id = .ok true := by
      intro n hn
      obtain ⟨i, hi⟩ := List.mem_iff_getElem?.1 hn
      have hlt := (List.getElem?_eq_some_iff.1 hi).1
      rw [isSupported, hconsistent.id_eq i n hi, probe_eq_ok_of_lower hregistry h hlt]
    intro n hn m hm _
    rw [hsupported n hn, hsupported m hm]
  · rintro ⟨hagree, hfresh⟩
    obtain ⟨verdicts, hsupport, htrue⟩ := happroves.support
    have hsupported : ∀ n ∈ g.nodes, l.isSupported g n.id = .ok true := by
      intro n hn
      obtain ⟨m, hm, hname, hverdict⟩ := exists_isSupported_of_support hsupport (htrue n hn)
      rw [hagree n hn m hm hname.symm, hverdict]
    obtain ⟨s, hs⟩ := exists_advanced hregistry hoverlay hconsistent happroves hfresh hsupported
      (Nat.le_refl g.size)
    exact hs.exists_lowered

end Lowerer

namespace Graph

/-- Two matrices and their product twice. The second product has the given name. -/
def twinsRequests (name : String) : List (String × NodeRequest) :=
  [("a", .parameter (.ofSizes .f32 [2, 3])), ("b", .parameter (.ofSizes .f32 [3, 2])),
    ("c", .operation (.single Opset.matMul) [⟨0, 0⟩, ⟨1, 0⟩] [.ofSizes .f32 [2, 2]] .empty),
    (name, .operation (.single Opset.matMul) [⟨0, 0⟩, ⟨1, 0⟩] [.ofSizes .f32 [2, 2]] .empty)]

/-- The graph of the two products. -/
def twins (name : String) : Graph :=
  ⟨[⟨0, .single Opset.parameter, "a", [], [], [.ofSizes .f32 [2, 3]], .empty, none⟩,
    ⟨1, .single Opset.parameter, "b", [], [], [.ofSizes .f32 [3, 2]], .empty, none⟩,
    ⟨2, .single Opset.matMul, "c", [⟨0, 0⟩, ⟨1, 0⟩], [.ofSizes .f32 [2, 3], .ofSizes .f32 [3, 2]],
      [.ofSizes .f32 [2, 2]], .empty, none⟩,
    ⟨3, .single Opset.matMul, name, [⟨0, 0⟩, ⟨1, 0⟩], [.ofSizes .f32 [2, 3], .ofSizes .f32 [3, 2]],
      [.ofSizes .f32 [2, 2]], .empty, none⟩]⟩

/-- An error function without an argument, which cannot be lowered, and behind it a result of its
name. -/
def maskedRequests : List (String × NodeRequest) :=
  [("x", .parameter (.ofSizes .f32 [2])),
    ("n", .operation (.single Opset.erf) [] [.ofSizes .f32 [2]] .empty),
    ("n", .result ⟨0, 0⟩)]

/-- The graph of the error function. -/
def masked : Graph :=
  ⟨[⟨0, .single Opset.parameter, "x", [], [], [.ofSizes .f32 [2]], .empty, none⟩,
    ⟨1, .single Opset.erf, "n", [], [], [.ofSizes .f32 [2]], .empty, none⟩,
    ⟨2, .single Opset.result, "n", [⟨0, 0⟩], [.ofSizes .f32 [2]], [.ofSizes .f32 [2]], .empty,
      none⟩]⟩

end Graph

namespace Lowerer

/-- The query approves of a graph when it does so by computation. -/
theorem approves_of_any_toOption {l : Lowerer} {g : Graph} (hopset : g.InOpset)
    (hdistinct : (g.nodes.map Node.identity?).Nodup)
    (houtputs : ∀ n ∈ g.nodes, 1 < n.outputs.length → n.isSplit = true)
    (hsupport : ((l.support g).toOption.any fun verdicts =>
      g.nodes.all fun n => verdicts.get? n.name == some true) = true) : l.Approves g where
  inOpset := hopset
  distinct := hdistinct
  outputs := houtputs
  support := by
    obtain ⟨verdicts, hverdicts, hall⟩ := Outcome.exists_of_any_toOption hsupport
    exact ⟨verdicts, hverdicts, by simpa using hall⟩

/-- The query approves of two products of different names, and they are lowered. -/
theorem lower_twins : Graph.ofRequests (Graph.twinsRequests "d") = .ok (.twins "d") ∧
    plain.Approves (.twins "d") ∧ ∃ lowered, plain.lower (.twins "d") {} = .ok lowered := by
  have happroves : plain.Approves (.twins "d") := approves_of_any_toOption
    (Graph.inOpset_iff.2 (by decide +kernel)) (by decide +kernel) (by decide +kernel)
    (by decide +kernel)
  have hrequests : Graph.ofRequests (Graph.twinsRequests "d") = .ok (.twins "d") := rfl
  refine ⟨hrequests, happroves, ?_⟩
  refine (lower_iff_of_approves rfl rfl hrequests happroves).2 ⟨?_, by decide +kernel⟩
  intro n hn m hm hname
  rw [List.inj_on_of_nodup_map (by decide +kernel) hn hm hname]

/-- A graph that the query approves of may not be lowered: a product derives the identity of the
other, or a node that cannot be lowered is hidden by a later one of its name. -/
theorem approves_not_lower_twins_masked :
    (Graph.ofRequests (Graph.twinsRequests "c_out_reshape") = .ok (.twins "c_out_reshape") ∧
      plain.Approves (.twins "c_out_reshape") ∧
      ¬ ∃ lowered, plain.lower (.twins "c_out_reshape") {} = .ok lowered) ∧
    Graph.ofRequests Graph.maskedRequests = .ok .masked ∧ plain.Approves .masked ∧
      ¬ ∃ lowered, plain.lower .masked {} = .ok lowered := by
  have hfails : ∀ {g : Graph}, (plain.lower g {}).toOption.isNone = true →
      ¬ ∃ lowered, plain.lower g {} = .ok lowered := by
    rintro g hnone ⟨lowered, h⟩
    rw [h] at hnone
    cases hnone
  have htwins : plain.Approves (.twins "c_out_reshape") := approves_of_any_toOption
    (Graph.inOpset_iff.2 (by decide +kernel)) (by decide +kernel) (by decide +kernel)
    (by decide +kernel)
  have hmasked : plain.Approves .masked := approves_of_any_toOption
    (Graph.inOpset_iff.2 (by decide +kernel)) (by decide +kernel) (by decide +kernel)
    (by decide +kernel)
  exact ⟨⟨rfl, htwins, hfails (by decide +kernel)⟩, rfl, hmasked, hfails (by decide +kernel)⟩

end Lowerer

end TensorLowering
