import TensorLowering.Proofs.Lowering.History
import TensorLowering.Proofs.Lowering.Opset

/-!
# Where inputs are routed

An edge should lead to the primitive that holds the output it reads: the crop of that output behind
a split, and the last primitive of any other producer. The identity map is one flat table, in which
node identities, primitive identifiers and the identities of single outputs meet, so a later node
can write the key that an edge refers to. `Lowerer.source_eq_holder_iff` says exactly when an edge
leads to the right primitive.

## Implementation notes

The value under a key comes from the last node that wrote the key (`exists_lastWriter`), and the
identifiers emitted for different nodes differ, so the value is right exactly when the producer
itself was the last writer.
-/

namespace TensorLowering

namespace Emits

variable {ctx : BuildContext} {n : Node} {identity : String} {sources : List Source} {r : RuleName}
  {ps : List Primitive}

/-- Which identifiers a node other than a split is lowered to. -/
theorem id_cases (h : Emits ctx n identity sources r ps) (hr : r ≠ .split) {p : Primitive}
    (hp : p ∈ ps) :
    p.id = identity ∨ p.id = n.name ++ "/transpose_a" ∨ p.id = n.name ++ "/transpose_b" ∨
      p.id = identity ++ "_out_reshape" := by
  cases h with
  | one => exact .inl (by rw [List.mem_singleton.1 hp]; rfl)
  | split => exact absurd rfl hr
  | matMul _ _ _ _ _ _ operandA operandB behind =>
      rw [List.mem_append, List.mem_append, List.mem_append] at hp
      rcases hp with ((hp | hp) | hp) | hp
      · rcases operandA.eq_nil_or_singleton with ⟨rfl, -⟩ | ⟨q, rfl, hid, -⟩
        · cases hp
        · exact .inr (.inl (by rw [List.mem_singleton.1 hp, hid]))
      · rcases operandB.eq_nil_or_singleton with ⟨rfl, -⟩ | ⟨q, rfl, hid, -⟩
        · cases hp
        · exact .inr (.inr (.inl (by rw [List.mem_singleton.1 hp, hid])))
      · exact .inl (by rw [List.mem_singleton.1 hp]; rfl)
      · rcases behind.eq_nil_or_singleton with rfl | ⟨q, rfl, hid, -⟩
        · cases hp
        · exact .inr (.inr (.inr (by rw [List.mem_singleton.1 hp, hid])))

/-- A node other than a split is lowered to a primitive under its identity. -/
theorem identity_mem (h : Emits ctx n identity sources r ps) (hr : r ≠ .split) :
    identity ∈ ps.map Primitive.id := by
  cases h with
  | one => simp
  | split => exact absurd rfl hr
  | matMul => simp

/-- A split is lowered to one crop for each output. -/
theorem crop_id (h : Emits ctx n identity sources .split ps) :
    ps.length = n.outputs.length ∧
      ∀ k p, ps[k]? = some p → p.id = identity ++ outputSuffix k := by
  cases h with
  | one becomes => cases becomes
  | split _ _ _ _ _ crops =>
      refine ⟨crops.length_eq, ?_⟩
      intro k p hp
      obtain ⟨hid, -⟩ := crops.getElem?_eq_some hp
      rwa [Nat.zero_add] at hid

end Emits

namespace Lowerer

variable {l : Lowerer} {g : Graph} {options : BuildOptions} {lowered : Lowered}

/-- The keys of the identity map that are written while the node at a position is lowered: its
identity and the identifiers of its primitives, if there are any. -/
def writtenKeys (l : Lowerer) (g : Graph) (options : BuildOptions) (i : Nat) : List String :=
  match g.node? i with
  | some n =>
    if l.emitted g options i = [] then []
    else n.identity?.toList ++ (l.emitted g options i).map Primitive.id
  | none => []

/-- The primitive that holds the output that an edge reads: the crop of the output when the producer
is a split, and otherwise the last primitive of the producer. -/
def holder? (l : Lowerer) (g : Graph) (options : BuildOptions) (e : Edge) : Option Primitive := do
  let producer ← g.node? e.node
  if producer.isSplit then (l.emitted g options e.node)[e.output]?
  else (l.emitted g options e.node).getLast?

/-- The source that an input of the node at a position was resolved to. -/
def source? (l : Lowerer) (g : Graph) (options : BuildOptions) (j input : Nat) : Option Source := do
  let n ← g.node? j
  let sources ← ((l.context g options).inputs (l.stateBefore g options j).ids n).toOption
  sources[input]?

/-- What an edge refers to is written by its producer, and by no node after it in front of a
position. -/
def Unshadowed (l : Lowerer) (g : Graph) (options : BuildOptions) (j : Nat) (e : Edge) : Prop :=
  ∃ producer target, g.node? e.node = some producer ∧
    e.target producer (l.regime g options) = .ok target ∧
    (producer.isSplit = true ∨ producer.hasOutputIdentities (l.regime g options) = false) ∧
    ∀ q, e.node < q → q < j → target.id ∉ l.writtenKeys g options q

section

variable (h : l.lower g options = .ok lowered) (hregistry : l.registry = .standard)
include h hregistry

/-- Lowering one node writes the keys of the node and keeps the others. -/
theorem get?_stateBefore_succ {i : Nat} (hi : i < g.size) (key : String) :
    (key ∉ l.writtenKeys g options i ∧ (l.stateBefore g options (i + 1)).ids.get? key =
        (l.stateBefore g options i).ids.get? key) ∨
      (key ∈ l.writtenKeys g options i ∧ ∃ p ∈ l.emitted g options i,
        (l.stateBefore g options (i + 1)).ids.get? key = some p.id) := by
  have hn : g.nodes[i]? = some g.nodes[i] := List.getElem?_eq_getElem hi
  obtain @⟨label, identity, r, sources, ps, -, hidentity, -, -, -, -, -, hids⟩ :=
    loweredAt_of_lower h hregistry hn
  rw [hids, IdentityMap.get?_noteAll]
  cases hlast : (l.emitted g options i).getLast? with
  | none =>
      have hnil : l.emitted g options i = [] := List.getLast?_eq_none_iff.1 hlast
      refine .inl ⟨by simp [writtenKeys, Graph.node?, hn, hnil], ?_⟩
      simp [hnil]
  | some last =>
      have hmem : last ∈ l.emitted g options i := List.mem_of_getLast? hlast
      have hkeys : l.writtenKeys g options i =
          identity :: (l.emitted g options i).map Primitive.id := by
        have hidentity? : g.nodes[i].identity? = some identity :=
            Outcome.ofOption_eq_ok_iff.1 hidentity
        have hne : l.emitted g options i ≠ [] := List.ne_nil_of_mem hmem
        simp [writtenKeys, Graph.node?, hn, hne, hidentity?]
      rw [hkeys, List.getLast?_map, hlast]
      by_cases hkey : key = identity
      · exact .inr ⟨by simp [hkey], last, hmem, by simp [hkey]⟩
      · by_cases hown : key ∈ (l.emitted g options i).map Primitive.id
        · obtain ⟨p, hp, rfl⟩ := List.mem_map.1 hown
          exact .inr ⟨List.mem_cons_of_mem _ hown, p, hp, by rw [if_neg hkey, if_pos hown]⟩
        · exact .inl ⟨by simpa [hkey] using hown, by rw [if_neg hkey, if_neg hown]⟩

/-- A key that is not written keeps its value. -/
theorem get?_of_unwritten {key : String} {i j : Nat} (hij : i ≤ j) (hj : j ≤ g.size)
    (hkey : ∀ q, i ≤ q → q < j → key ∉ l.writtenKeys g options q) :
    (l.stateBefore g options j).ids.get? key = (l.stateBefore g options i).ids.get? key := by
  induction j with
  | zero =>
      obtain rfl : i = 0 := by omega
      rfl
  | succ j ih =>
      rcases Nat.lt_or_ge j i with hlt | hge
      · obtain rfl : i = j + 1 := by omega
        rfl
      · have hbefore := ih hge (by omega) fun q hq hqj => hkey q hq (by omega)
        rcases get?_stateBefore_succ h hregistry hj key with ⟨-, hsame⟩ | ⟨hwritten, -⟩
        · rw [hsame, hbefore]
        · exact absurd hwritten (hkey j hge (Nat.lt_succ_self j))

/-- The value under a key is a primitive of the last node that wrote the key. -/
theorem exists_lastWriter {key id : String} {j : Nat} (hj : j ≤ g.size)
    (hid : (l.stateBefore g options j).ids.get? key = some id) :
    ∃ q < j, key ∈ l.writtenKeys g options q ∧ (∃ p ∈ l.emitted g options q, p.id = id) ∧
      ∀ q', q < q' → q' < j → key ∉ l.writtenKeys g options q' := by
  induction j with
  | zero => simp [BuildState.empty] at hid
  | succ j ih =>
      rcases get?_stateBefore_succ h hregistry hj key with
        ⟨hunwritten, hsame⟩ | ⟨hwritten, p, hp, hvalue⟩
      · obtain ⟨q, hq, hkey, hvalue, hlater⟩ := ih (by omega) (hsame ▸ hid)
        refine ⟨q, by omega, hkey, hvalue, ?_⟩
        intro q' hq' hlt
        rcases Nat.lt_or_ge q' j with hlt' | hge
        · exact hlater q' hq' hlt'
        · obtain rfl : q' = j := by omega
          exact hunwritten
      · refine ⟨j, by omega, hwritten, ⟨p, hp, ?_⟩, by omega⟩
        exact Option.some.inj (hvalue.symm.trans hid)

variable (hoverlay : l.overlay = .empty) {i : Nat} {producer : Node} {e : Edge} {target : Source}
  (hproducer : g.nodes[i]? = some producer) (hopset : producer.InOpset)
  (htarget : e.target producer (l.regime g options) = .ok target)
include hoverlay hproducer hopset htarget

/-- Right behind a producer, what an edge into it refers to leads to the primitive that holds the
output: for a split, and for a node whose outputs have no identities of their own. -/
theorem get?_target_of_own (houtput : e.output < producer.outputs.length)
    (hown : producer.isSplit = true ∨ producer.hasOutputIdentities (l.regime g options) = false) :
    ∃ p, (if producer.isSplit then (l.emitted g options i)[e.output]?
        else (l.emitted g options i).getLast?) = some p ∧
      (l.stateBefore g options (i + 1)).ids.get? target.id = some p.id := by
  obtain @⟨label, identity, r, sources, ps, -, hidentity, hruled, -, hemits, hemitted, -, hids⟩ :=
    loweredAt_of_lower h hregistry hproducer
  obtain ⟨identity', hidentity', rfl⟩ := Edge.target_eq_ok_iff.1 htarget
  obtain rfl := Except.ok.inj (hidentity.symm.trans hidentity')
  have hnoted : (l.emitted g options i).map Primitive.id = ps.map Primitive.id := by
    rw [hemitted, List.map_map]
    rfl
  rw [hids, IdentityMap.get?_noteAll, hnoted]
  by_cases hsplit : producer.isSplit = true
  · obtain rfl := (ruleName?_eq_split_iff hoverlay hopset hruled).2 hsplit
    obtain ⟨hlength, hcrops⟩ := hemits.crop_id
    have hp : ps[e.output]? = some (ps.get ⟨e.output, by omega⟩) := List.getElem?_eq_getElem _
    have hpid := hcrops _ _ hp
    refine ⟨(ps.get ⟨e.output, by omega⟩).labelled label identity, ?_, ?_⟩
    · rw [if_pos hsplit, hemitted, List.getElem?_map, hp]
      rfl
    · rw [Primitive.labelled_id, hpid]
      by_cases hseveral : 1 < producer.outputs.length
      · have hmem := List.mem_map_of_mem (f := Primitive.id) (List.mem_of_getElem? hp)
        rw [hpid] at hmem
        have hnot := append_outputSuffix_ne_self identity e.output
        simp [Node.hasOutputIdentities, hseveral, hsplit, hnot, hmem]
      · have hzero : e.output = 0 := by omega
        have hone : ps.length = 1 := by omega
        obtain ⟨p, rfl⟩ := List.length_eq_one_iff.1 hone
        have hpid' := hcrops 0 p rfl
        simp [Node.hasOutputIdentities, hseveral, hzero, hpid']
  · have hlast : r ≠ .split := fun hr =>
        hsplit ((ruleName?_eq_split_iff hoverlay hopset hruled).1 hr)
    have hlegacy : producer.hasOutputIdentities (l.regime g options) = false := by
      rcases hown with hown | hown
      · exact absurd hown hsplit
      · exact hown
    have hne : ps ≠ [] := by
      rintro rfl
      simpa using hemits.identity_mem hlast
    refine ⟨(ps.getLast hne).labelled label identity, ?_, ?_⟩
    · rw [if_neg hsplit, hemitted, List.getLast?_map, List.getLast?_eq_some_getLast hne]
      rfl
    · simp [hlegacy, List.getLast?_eq_some_getLast hne]

/-- A node that is no split never writes the identity of a single output of its own. -/
theorem target_notMem_writtenKeys (hsplit : producer.isSplit = false)
    (hseveral : producer.hasOutputIdentities (l.regime g options) = true) :
    target.id ∉ l.writtenKeys g options i := by
  obtain @⟨label, identity, r, sources, ps, -, hidentity, hruled, -, hemits, hemitted, -, -⟩ :=
    loweredAt_of_lower h hregistry hproducer
  obtain ⟨identity', hidentity', rfl⟩ := Edge.target_eq_ok_iff.1 htarget
  obtain rfl := Except.ok.inj (hidentity.symm.trans hidentity')
  have hr : r ≠ .split := by
    intro hr
    rw [(ruleName?_eq_split_iff hoverlay hopset hruled).1 hr] at hsplit
    cases hsplit
  have hidentity? : producer.identity? = some identity := Outcome.ofOption_eq_ok_iff.1 hidentity
  simp only [writtenKeys, Graph.node?, hproducer, hseveral, if_true]
  split
  · exact List.not_mem_nil
  · rw [hidentity?, Option.toList_some, List.singleton_append, List.mem_cons, hemitted,
      List.map_map]
    rintro (hkey | hkey)
    · exact append_outputSuffix_ne_self _ _ hkey
    · obtain ⟨p, hp, hid⟩ := List.mem_map.1 hkey
      rcases hemits.id_cases hr hp with hcase | hcase | hcase | hcase
      · exact append_outputSuffix_ne_self _ _ (hid.symm.trans hcase)
      · exact append_outputSuffix_ne (c := 'a') (by decide) (by decide) (hid.symm.trans hcase)
      · exact append_outputSuffix_ne (c := 'b') (by decide) (by decide) (hid.symm.trans hcase)
      · exact append_outputSuffix_ne (c := 'e') (by decide) (by decide) (hid.symm.trans hcase)

end

/-- The sources of a node are what its inputs were resolved to. -/
theorem source?_eq {j : Nat} {n : Node} (hn : g.nodes[j]? = some n) {sources : List Source}
    (hsources : (l.context g options).inputs (l.stateBefore g options j).ids n = .ok sources)
    (input : Nat) : l.source? g options j input = sources[input]? := by
  simp only [source?, Graph.node?, hn, Option.bind_some, Option.bind_eq_bind, hsources,
    Except.toOption]

section

variable (hregistry : l.registry = .standard) (h : l.lower g options = .ok lowered) {j : Nat}
  {n : Node} (hn : g.nodes[j]? = some n)
include hregistry h hn

/-- Every input of a node that is lowered was resolved: the identity map led from what its edge
refers to, to the primitive that it reads. -/
theorem exists_source {a : Nat} {e : Edge} (he : n.inputs[a]? = some e) :
    ∃ source producer target, l.source? g options j a = some source ∧
      g.node? e.node = some producer ∧ e.target producer (l.regime g options) = .ok target ∧
      (l.stateBefore g options j).ids.get? target.id = some source.id ∧
      source.output = target.output := by
  obtain @⟨label, identity, r, sources, ps, -, -, -, hsources, -, -, -, -⟩ :=
    loweredAt_of_lower h hregistry hn
  obtain ⟨source, hsource, hresolve⟩ := Outcome.getElem?_of_mapM_eq_ok hsources he
  obtain ⟨producer, target, hproducer, htarget, hid, houtput⟩ := Edge.resolve_eq_ok_iff.1 hresolve
  refine ⟨source, producer, target, ?_, hproducer, htarget, hid, houtput⟩
  rw [source?_eq hn hsources, hsource]

/-- What is emitted for a node reads the sources of its edges, and what was emitted for it
before. -/
theorem emitted_reads {i : Nat} {p : Primitive} (hp : (l.emitted g options j)[i]? = some p) :
    ∀ s ∈ p.inputs, (∃ a, l.source? g options j a = some s) ∨
      s.output = 0 ∧ s.id ∈ ((l.emitted g options j).take i).map Primitive.id := by
  obtain @⟨label, identity, r, sources, ps, -, -, -, hsources, hemits, hemitted, -, -⟩ :=
    loweredAt_of_lower h hregistry hn
  intro s hs
  rw [hemitted, List.getElem?_map, Option.map_eq_some_iff] at hp
  obtain ⟨q, hq, rfl⟩ := hp
  rcases hemits.readsBack i q hq s hs with hown | ⟨hzero, hback⟩
  · obtain ⟨a, ha⟩ := List.mem_iff_getElem?.1 hown
    exact .inl ⟨a, (source?_eq hn hsources a).trans ha⟩
  · refine .inr ⟨hzero, ?_⟩
    rw [hemitted, ← List.map_take, List.map_map]
    exact hback

/-- An edge leads to the primitive that holds the output it reads exactly when what it refers to was
written by its producer and not written again. -/
theorem source_eq_holder_iff (hoverlay : l.overlay = .empty) (hg : g.Consistent)
    (hopset : g.InOpset) {a : Nat} {e : Edge} (he : n.inputs[a]? = some e) {source : Source}
    (hsource : l.source? g options j a = some source) :
    (∃ p, l.holder? g options e = some p ∧ source.id = p.id) ↔ l.Unshadowed g options j e := by
  obtain ⟨source', producer, target, hsource', hproducer, htarget, hid, -⟩ :=
    exists_source hregistry h hn he
  obtain rfl := Option.some.inj (hsource.symm.trans hsource')
  obtain ⟨hj, -⟩ := List.getElem?_eq_some_iff.1 hn
  obtain ⟨type, hearlier, producer', hproducer', houtput⟩ :=
    hg.leads_of_mem hn (List.mem_of_getElem? he)
  obtain rfl := Option.some.inj (hproducer.symm.trans hproducer')
  have hin : producer.InOpset := hopset _ (List.mem_of_getElem? hproducer)
  have hheld : l.holder? g options e =
      if producer.isSplit then (l.emitted g options e.node)[e.output]?
      else (l.emitted g options e.node).getLast? := by
    simp only [holder?, hproducer, Option.bind_eq_bind, Option.bind_some]
  constructor
  · rintro ⟨p, hp, hsame⟩
    have hmem : p ∈ l.emitted g options e.node := by
      rw [hheld] at hp
      split at hp
      · exact List.mem_of_getElem? hp
      · exact List.mem_of_getLast? hp
    obtain ⟨q, hq, hkey, ⟨p', hp', hvalue⟩, hlater⟩ :=
      exists_lastWriter h hregistry (Nat.le_of_lt hj) hid
    -- the last writer emitted the primitive that the edge leads to, so it is the producer
    obtain rfl : q = e.node := eq_of_emitted_id_eq h hregistry (Nat.lt_trans hq hj)
      (Nat.lt_trans hearlier hj) hp' hmem (hvalue.trans hsame)
    refine ⟨producer, target, hproducer, htarget, ?_, hlater⟩
    cases hsplit : producer.isSplit with
    | false =>
        cases hseveral : producer.hasOutputIdentities (l.regime g options) with
        | false => exact .inr rfl
        | true =>
            exact absurd hkey
              (target_notMem_writtenKeys h hregistry hoverlay hproducer hin htarget hsplit hseveral)
    | true => exact .inl rfl
  · rintro ⟨producer', target', hproducer', htarget', hown, hlater⟩
    obtain rfl := Option.some.inj (hproducer.symm.trans hproducer')
    obtain rfl := Except.ok.inj (htarget.symm.trans htarget')
    obtain ⟨p, hp, hvalue⟩ := get?_target_of_own h hregistry hoverlay hproducer hin htarget
      (List.getElem?_eq_some_iff.1 houtput).1 hown
    refine ⟨p, hheld.trans hp, ?_⟩
    have hkept := get?_of_unwritten h hregistry hearlier (Nat.le_of_lt hj)
      fun q hq hqj => hlater q hq hqj
    rw [hid, hvalue] at hkept
    exact Option.some.inj hkept

end

/-- Every edge leads to the primitive that holds the output it reads. -/
def RoutesRight (l : Lowerer) (g : Graph) (options : BuildOptions) : Prop :=
  ∀ j n a e, g.nodes[j]? = some n → n.inputs[a]? = some e → ∃ source p,
    l.source? g options j a = some source ∧ l.holder? g options e = some p ∧ source.id = p.id

/-- What inputs are routed to. The primitives of a node read sources of its edges, or what was
emitted for the node before; and the source of an edge is the primitive that holds the output
exactly when the identity that the edge refers to is one of its producer, and is not written again
between the two. -/
theorem routing_iff_unshadowed (hregistry : l.registry = .standard) (hoverlay : l.overlay = .empty)
    {requests : List (String × NodeRequest)} (hg : Graph.ofRequests requests = .ok g)
    (hopset : g.InOpset) (h : l.lower g options = .ok lowered) {j : Nat} {n : Node}
    (hn : g.nodes[j]? = some n) :
    (∀ i p, (l.emitted g options j)[i]? = some p → ∀ s ∈ p.inputs,
      (∃ a, l.source? g options j a = some s) ∨
        s.output = 0 ∧ s.id ∈ ((l.emitted g options j).take i).map Primitive.id) ∧
      ∀ a e, n.inputs[a]? = some e → ∃ source, l.source? g options j a = some source ∧
        ((∃ p, l.holder? g options e = some p ∧ source.id = p.id) ↔
          l.Unshadowed g options j e) := by
  constructor
  · intro i p hp
    exact emitted_reads hregistry h hn hp
  · intro a e he
    obtain ⟨source, -, -, hsource, -⟩ := exists_source hregistry h hn he
    exact ⟨source, hsource, source_eq_holder_iff hregistry h hn hoverlay
      (Graph.consistent_of_ofRequests hg) hopset he hsource⟩

/-- The edges of the product of two matrices lead to the right primitives. -/
theorem routing_product : plain.source? .product {} 3 0 = some ⟨"matmul:c_out_reshape", 0⟩ ∧
    ∃ p, plain.holder? .product {} ⟨2, 0⟩ = some p ∧ p.id = "matmul:c_out_reshape" := by
  obtain ⟨lowered, h⟩ := exists_lowered_product
  have hopset : Graph.product.InOpset := Graph.inOpset_iff.2 (by decide +kernel)
  have hsource : plain.source? .product {} 3 0 = some ⟨"matmul:c_out_reshape", 0⟩ := by
    decide +kernel
  obtain ⟨-, hroutes⟩ := routing_iff_unshadowed rfl rfl Graph.ofRequests_productRequests hopset h
    (j := 3) rfl
  obtain ⟨source, hsource', hiff⟩ := hroutes 0 ⟨2, 0⟩ rfl
  obtain rfl := Option.some.inj (hsource.symm.trans hsource')
  have hunshadowed : plain.Unshadowed .product {} 3 ⟨2, 0⟩ :=
    ⟨_, ⟨"matmul:c", 0⟩, rfl, by decide +kernel, .inr (by decide +kernel),
      fun q (hq : 2 < q) hlt => by omega⟩
  obtain ⟨p, hp, hid⟩ := hiff.2 hunshadowed
  exact ⟨hsource, p, hp, hid.symm⟩

end Lowerer

namespace Graph

/-- Two splits of one tensor. The second is named after the second output of the first. -/
def shadowedRequests : List (String × NodeRequest) :=
  [("x", .parameter (.ofSizes .f32 [4])),
    ("axis", .constant (.ofIntegers [] [0])),
    ("y", .operation (.single Opset.split) [⟨0, 0⟩, ⟨1, 0⟩]
      [.ofSizes .f32 [2], .ofSizes .f32 [2]] .empty),
    ("y.out1", .operation (.single Opset.split) [⟨0, 0⟩, ⟨1, 0⟩] [.ofSizes .f32 [4]] .empty),
    ("r", .result ⟨2, 1⟩)]

/-- The graph of the two splits. -/
def shadowed : Graph :=
  ⟨[⟨0, .single Opset.parameter, "x", [], [], [.ofSizes .f32 [4]], .empty, none⟩,
    ⟨1, .single Opset.constant, "axis", [], [], [.ofSizes .i64 []], .empty,
      some (.ofIntegers [] [0])⟩,
    ⟨2, .single Opset.split, "y", [⟨0, 0⟩, ⟨1, 0⟩], [.ofSizes .f32 [4], .ofSizes .i64 []],
      [.ofSizes .f32 [2], .ofSizes .f32 [2]], .empty, none⟩,
    ⟨3, .single Opset.split, "y.out1", [⟨0, 0⟩, ⟨1, 0⟩], [.ofSizes .f32 [4], .ofSizes .i64 []],
      [.ofSizes .f32 [4]], .empty, none⟩,
    ⟨4, .single Opset.result, "r", [⟨2, 1⟩], [.ofSizes .f32 [2]], [.ofSizes .f32 [2]], .empty,
      none⟩]⟩

end Graph

namespace Lowerer

/-- An edge may lead to the wrong primitive although the identities of all nodes differ: the result
should be the second output of the first split, and becomes the only output of the other. -/
theorem not_routesRight_shadowed :
    Graph.ofRequests Graph.shadowedRequests = .ok .shadowed ∧ Graph.shadowed.InOpset ∧
      (Graph.shadowed.nodes.map Node.identity?).Nodup ∧
      (plain.lower .shadowed {}).toOption.isSome = true ∧
      (plain.emitted .shadowed {} 4).map Primitive.inputs = [[⟨"split:y.out1.out0", 0⟩]] ∧
      (plain.holder? .shadowed {} ⟨2, 1⟩).map Primitive.id = some "split:y.out1" ∧
      ¬ plain.RoutesRight .shadowed {} := by
  have hsource : plain.source? .shadowed {} 4 0 = some ⟨"split:y.out1.out0", 0⟩ := by decide +kernel
  have hholder : (plain.holder? .shadowed {} ⟨2, 1⟩).map Primitive.id = some "split:y.out1" := by
    decide +kernel
  refine ⟨rfl, Graph.inOpset_iff.2 (by decide +kernel), by decide +kernel, by decide +kernel,
    by decide +kernel, hholder, ?_⟩
  intro h
  obtain ⟨source, p, hsource', hp, hid⟩ := h 4 _ 0 ⟨2, 1⟩ rfl rfl
  obtain rfl := Option.some.inj (hsource.symm.trans hsource')
  rw [hp, Option.map_some, ← hid] at hholder
  revert hholder
  decide

end Lowerer

end TensorLowering
