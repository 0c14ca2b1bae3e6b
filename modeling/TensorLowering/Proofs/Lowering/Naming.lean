import TensorLowering.Proofs.Lowering.Routing
import TensorLowering.Proofs.Program.Valuation

/-!
# Plain names

When no node name has a colon in it or looks like the number of an output, the keys of the identity
map belong to one node each. Then every edge leads to the primitive that holds the output it reads,
and every result is handed out under a name of its own.

## Main statements

* `Lowerer.eq_of_target_mem_writtenKeys`: what an edge refers to is written by its producer only.
* `Lowerer.routesRight_of_plainNames`: every edge leads to the right primitive.
-/

namespace TensorLowering

/-- A name without a colon, which does not end in the number of an output. -/
def Node.PlainName (n : Node) : Prop :=
  ':' ∉ n.name.toList ∧ ∀ stem k, n.name ≠ stem ++ outputSuffix k

/-- A graph whose nodes have plain names. -/
def Graph.PlainNames (g : Graph) : Prop := ∀ n ∈ g.nodes, n.PlainName

/-- Names without a colon that do not end in a digit are plain. -/
theorem Graph.plainNames_of_getLast? {g : Graph} (h : ∀ n ∈ g.nodes, ':' ∉ n.name.toList ∧
    n.name.toList.getLast?.any (!·.isDigit) = true) : g.PlainNames := by
  intro n hn
  obtain ⟨hcolon, hlast⟩ := h n hn
  obtain ⟨c, hc, hdigit⟩ := (Option.any_eq_true _ _).1 hlast
  refine ⟨hcolon, fun stem k heq => ?_⟩
  exact append_outputSuffix_ne (b := "") hc (Bool.not_eq_true' _ ▸ hdigit)
    (heq.symm.trans String.empty_append.symm)

theorem Payload.typeName_ne_result (payload : Payload) : payload.typeName ≠ "Result" := by
  cases payload <;> simp [Payload.typeName]

/-- Only the primitives of results count as results. -/
theorem Primitive.kindName_eq_of_isResult {label : NodeLabel} {identity : String} {p : Primitive}
    (h : (p.labelled label identity).detached.isResult = true) : label.kind.name = "Result" := by
  have htype : (p.labelled label identity).originType = "Result" := by
    simpa [Step.isResult, Primitive.detached] using h
  rw [Primitive.labelled] at htype
  dsimp only at htype
  split at htype
  · exact absurd htype p.payload.typeName_ne_result
  · exact htype

namespace Emits

variable {ctx : BuildContext} {n : Node} {identity : String} {sources : List Source} {r : RuleName}
  {ps : List Primitive}

/-- A primitive whose identifier has no colon in it is read by another one of its node. -/
theorem exists_user (h : Emits ctx n identity sources r ps) (hidentity : ':' ∈ identity.toList)
    {p : Primitive} (hp : p ∈ ps) (hplain : ':' ∉ p.id.toList) :
    ∃ user ∈ ps, ∃ s ∈ user.inputs, s.id = p.id := by
  cases h with
  | one =>
      rw [List.mem_singleton.1 hp] at hplain
      exact absurd hidentity hplain
  | split _ _ _ _ _ crops =>
      obtain ⟨k, hk⟩ := List.mem_iff_getElem?.1 hp
      obtain ⟨hid, -⟩ := crops.getElem?_eq_some hk
      rw [hid, String.toList_append] at hplain
      exact absurd (List.mem_append_left _ hidentity) hplain
  | @matMul a b type _ _ inputA inputB psA psB tail _ _ _ _ _ _ operandA operandB behind =>
      let product := Primitive.new identity (.gemm (n.productSpec (ctx.moves n a b) a b type))
          [inputA, inputB]
      have hproduct : product ∈ psA ++ psB ++ [product] ++ tail := by simp
      rw [List.mem_append, List.mem_append, List.mem_append] at hp
      rcases hp with ((hp | hp) | hp) | hp
      · rcases operandA.eq_nil_or_singleton with ⟨rfl, -⟩ | ⟨q, rfl, hid, -, rfl⟩
        · cases hp
        · obtain rfl := List.mem_singleton.1 hp
          exact ⟨product, hproduct, _, List.mem_cons_self, hid.symm⟩
      · rcases operandB.eq_nil_or_singleton with ⟨rfl, -⟩ | ⟨q, rfl, hid, -, rfl⟩
        · cases hp
        · obtain rfl := List.mem_singleton.1 hp
          exact ⟨product, hproduct, _, List.mem_cons_of_mem _ List.mem_cons_self, hid.symm⟩
      · rw [List.mem_singleton.1 hp] at hplain
        exact absurd hidentity hplain
      · rcases behind.eq_nil_or_singleton with rfl | ⟨q, rfl, hid, -⟩
        · cases hp
        · rw [List.mem_singleton.1 hp, hid, String.toList_append] at hplain
          exact absurd (List.mem_append_left _ hidentity) hplain

end Emits

namespace Lowerer

variable {l : Lowerer} {g : Graph} {options : BuildOptions} {lowered : Lowered}

section

variable (h : l.lower g options = .ok lowered) (hregistry : l.registry = .standard)
include h hregistry

/-- Every primitive in front of a position was emitted for one of the nodes before. -/
theorem exists_emitted {j : Nat} (hj : j ≤ g.size) {p : Primitive}
    (hp : p ∈ (l.stateBefore g options j).topology.primitives) :
    ∃ i < j, p ∈ l.emitted g options i := by
  induction j with
  | zero => simp [BuildState.empty, Topology.empty] at hp
  | succ j ih =>
      have hn : g.nodes[j]? = some g.nodes[j] := List.getElem?_eq_getElem hj
      obtain ⟨-, -, -, -, -, -, hprimitives, -⟩ := loweredAt_of_lower h hregistry hn
      rw [hprimitives, List.mem_append] at hp
      rcases hp with hold | hnew
      · obtain ⟨i, hi, hp⟩ := ih (by omega) hold
        exact ⟨i, by omega, hp⟩
      · exact ⟨j, by omega, hnew⟩

variable (hoverlay : l.overlay = .empty) {i : Nat} {n : Node} {identity : String}
  (hn : g.nodes[i]? = some n) (hopset : n.InOpset) (hidentity : n.identity = .ok identity)
include hoverlay hn hopset hidentity

/-- A split is lowered to the crop of each output, under the identity of the output. -/
theorem emitted_of_isSplit (hsplit : n.isSplit = true) :
    (l.emitted g options i).length = n.outputs.length ∧
      ∀ k p, (l.emitted g options i)[k]? = some p → p.id = identity ++ outputSuffix k := by
  obtain ⟨label, r, sources, ps, -, hruled, hemits, hemitted⟩ :=
    exists_emits h hregistry hn hidentity
  obtain rfl := (ruleName?_eq_split_iff hoverlay hopset hruled).2 hsplit
  obtain ⟨hlength, hcrops⟩ := hemits.crop_id
  rw [hemitted, List.length_map]
  refine ⟨hlength, ?_⟩
  intro k p hp
  rw [List.getElem?_map, Option.map_eq_some_iff] at hp
  obtain ⟨q, hq, rfl⟩ := hp
  exact hcrops k q hq

theorem exists_emitted_crop (hsplit : n.isSplit = true) {k : Nat} (hk : k < n.outputs.length) :
    ∃ p ∈ l.emitted g options i, p.id = identity ++ outputSuffix k := by
  obtain ⟨hlength, hcrops⟩ := emitted_of_isSplit h hregistry hoverlay hn hopset hidentity hsplit
  have hp := List.getElem?_eq_getElem (hlength.symm ▸ hk)
  exact ⟨_, List.mem_of_getElem? hp, hcrops k _ hp⟩

/-- A node that is no split has a primitive under its identity. -/
theorem exists_emitted_identity (hsplit : n.isSplit = false) :
    ∃ p ∈ l.emitted g options i, p.id = identity := by
  obtain ⟨label, r, sources, ps, -, hruled, hemits, hemitted⟩ :=
    exists_emits h hregistry hn hidentity
  have hr : r ≠ .split := by
    intro hr
    rw [(ruleName?_eq_split_iff hoverlay hopset hruled).1 hr] at hsplit
    cases hsplit
  obtain ⟨p, hp, hid⟩ := List.mem_map.1 (hemits.identity_mem hr)
  refine ⟨p.labelled label identity, ?_, hid⟩
  rw [hemitted]
  exact List.mem_map_of_mem hp

theorem emitted_ne_nil (houtputs : 0 < n.outputs.length) : l.emitted g options i ≠ [] := by
  cases hsplit : n.isSplit with
  | false =>
      obtain ⟨p, hp, -⟩ := exists_emitted_identity h hregistry hoverlay hn hopset hidentity hsplit
      exact List.ne_nil_of_mem hp
  | true =>
      obtain ⟨p, hp, -⟩ := exists_emitted_crop h hregistry hoverlay hn hopset hidentity hsplit
        houtputs
      exact List.ne_nil_of_mem hp

/-- A result is lowered to one primitive, which has the name of the result among the outputs. -/
theorem exists_emitted_result (hresult : n.isA Opset.result = true) :
    ∃ p, l.emitted g options i = [p] ∧ p.detached.isResult = true ∧ p.outputName = n.name := by
  obtain ⟨label, r, sources, ps, hlabel, hruled, hemits, hemitted⟩ :=
    exists_emits h hregistry hn hidentity
  obtain ⟨kind, hkind, rfl⟩ := Node.label_eq_ok_iff.1 hlabel
  have htype := hopset.type_eq_of_isA (by decide) hresult
  obtain rfl : kind = Opset.result := by
    rw [Node.kind?, htype] at hkind
    exact (Option.some.inj hkind).symm
  obtain rfl : r = .result := by
    rw [ruleName?_of_empty hoverlay hkind, htype] at hruled
    exact (Option.some.inj hruled).symm
  cases hemits with
  | @one _ payload inputs becomes =>
      have hout : ((Primitive.new identity payload inputs).labelled
          ⟨n.name, Opset.result⟩ identity).detached.isResult = true := by
        simp [Step.isResult, Primitive.detached, Primitive.labelled, Primitive.new, Opset.result]
      refine ⟨_, hemitted, hout, ?_⟩
      rw [Primitive.outputName, Step.outputName, if_pos hout]
      rfl

/-- What is emitted for a node has an identifier that starts with the identity of the node, or none
with a colon. -/
theorem emitted_id_cases {p : Primitive} (hp : p ∈ l.emitted g options i) :
    n.isSplit = false ∧ (p.id = identity ∨ p.id = identity ++ "_out_reshape" ∨
        p.id = n.name ++ "/transpose_a" ∨ p.id = n.name ++ "/transpose_b") ∨
      n.isSplit = true ∧ ∃ k, p.id = identity ++ outputSuffix k := by
  obtain ⟨label, r, sources, ps, -, hruled, hemits, hemitted⟩ :=
    exists_emits h hregistry hn hidentity
  rw [hemitted] at hp
  obtain ⟨q, hq, rfl⟩ := List.mem_map.1 hp
  rw [Primitive.labelled_id]
  have hiff := ruleName?_eq_split_iff hoverlay hopset hruled
  by_cases hr : r = .split
  · subst hr
    obtain ⟨k, hk⟩ := List.mem_iff_getElem?.1 hq
    exact .inr ⟨hiff.1 rfl, k, hemits.crop_id.2 k q hk⟩
  · refine .inl ⟨by simpa [hr] using hiff, ?_⟩
    rcases hemits.id_cases hr hq with hid | hid | hid | hid
    · exact .inl hid
    · exact .inr (.inr (.inl hid))
    · exact .inr (.inr (.inr hid))
    · exact .inr (.inl hid)

end

section

variable (h : l.lower g options = .ok lowered) (hregistry : l.registry = .standard)
  (hoverlay : l.overlay = .empty) (hopset : g.InOpset)
include h hregistry hoverlay hopset

/-- Nodes with one identity that are lowered to something are one node. -/
theorem eq_of_identity_eq {i j : Nat} {n m : Node} (hn : g.nodes[i]? = some n)
    (hm : g.nodes[j]? = some m) {identity : String} (ha : n.identity = .ok identity)
    (hb : m.identity = .ok identity) (hi : l.emitted g options i ≠ [])
    (hj : l.emitted g options j ≠ []) : i = j := by
  have hnopset := hopset _ (List.mem_of_getElem? hn)
  have hmopset := hopset _ (List.mem_of_getElem? hm)
  have hlt := (List.getElem?_eq_some_iff.1 hn).1
  have hlt' := (List.getElem?_eq_some_iff.1 hm).1
  obtain ⟨htype, -⟩ := hnopset.eq_of_identity_append_eq hmopset ha hb (x := "") (y := "") rfl
  have hsplit : m.isSplit = n.isSplit := Node.isSplit_congr htype.symm
  cases hcase : n.isSplit with
  | false =>
      obtain ⟨p, hp, hpid⟩ := exists_emitted_identity h hregistry hoverlay hn hnopset ha hcase
      obtain ⟨q, hq, hqid⟩ :=
        exists_emitted_identity h hregistry hoverlay hm hmopset hb (hsplit.trans hcase)
      exact eq_of_emitted_id_eq h hregistry hlt hlt' hp hq (hpid.trans hqid.symm)
  | true =>
      have hcrop : ∀ {i : Nat} {n : Node}, g.nodes[i]? = some n → n.InOpset →
          n.identity = .ok identity →
          n.isSplit = true → l.emitted g options i ≠ [] →
          ∃ p ∈ l.emitted g options i, p.id = identity ++ outputSuffix 0 := by
        intro i n hn hnopset ha hsplit hne
        obtain ⟨hlength, -⟩ := emitted_of_isSplit h hregistry hoverlay hn hnopset ha hsplit
        exact exists_emitted_crop h hregistry hoverlay hn hnopset ha hsplit
          (hlength ▸ List.length_pos_of_ne_nil hne)
      obtain ⟨p, hp, hpid⟩ := hcrop hn hnopset ha hcase hi
      obtain ⟨q, hq, hqid⟩ := hcrop hm hmopset hb (hsplit.trans hcase) hj
      exact eq_of_emitted_id_eq h hregistry hlt hlt' hp hq (hpid.trans hqid.symm)

/-- Results of one name are one node. -/
theorem eq_of_result_name_eq {i j : Nat} {n m : Node} (hn : g.nodes[i]? = some n)
    (hm : g.nodes[j]? = some m) (hresult : n.isA Opset.result = true)
    (hother : m.isA Opset.result = true) (hname : n.name = m.name) : i = j := by
  have hnopset := hopset _ (List.mem_of_getElem? hn)
  have hmopset := hopset _ (List.mem_of_getElem? hm)
  have htype : n.type = m.type := by
    rw [hnopset.type_eq_of_isA (by decide) hresult, hmopset.type_eq_of_isA (by decide) hother]
  obtain ⟨-, ha, -, -, -, -, -, -⟩ := loweredAt_of_lower h hregistry hn
  have hb := ha
  rw [Node.identity, Node.identity?, Node.layerType?, Node.kind?, htype, hname] at hb
  obtain ⟨p, hp, -⟩ := exists_emitted_result h hregistry hoverlay hn hnopset ha hresult
  obtain ⟨q, hq, -⟩ := exists_emitted_result h hregistry hoverlay hm hmopset hb hother
  exact eq_of_identity_eq h hregistry hoverlay hopset hn hm ha hb (by simp [hp]) (by simp [hq])

variable (hplain : g.PlainNames)
include hplain

/-- The keys with a colon in them that a node writes: its identity, or the identifier of a primitive
of its own. -/
theorem mem_writtenKeys_cases {q : Nat} {m : Node} (hm : g.nodes[q]? = some m) {identity : String}
    (hidentity : m.identity = .ok identity) {key : String} (hcolon : ':' ∈ key.toList)
    (hkey : key ∈ l.writtenKeys g options q) :
    l.emitted g options q ≠ [] ∧ (key = identity ∨
      (∃ p ∈ l.emitted g options q, p.id = key) ∧
        (m.isSplit = false ∧ key = identity ++ "_out_reshape" ∨
          m.isSplit = true ∧ ∃ k, key = identity ++ outputSuffix k)) := by
  have hmopset := hopset _ (List.mem_of_getElem? hm)
  have hname := (hplain _ (List.mem_of_getElem? hm)).1
  have hidentity? : m.identity? = some identity := Outcome.ofOption_eq_ok_iff.1 hidentity
  simp only [writtenKeys, Graph.node?, hm, hidentity?, Option.toList_some, List.singleton_append]
    at hkey
  split at hkey
  · cases hkey
  · next hne =>
    refine ⟨hne, ?_⟩
    rcases List.mem_cons.1 hkey with hkey | hkey
    · exact .inl hkey
    · obtain ⟨p, hp, rfl⟩ := List.mem_map.1 hkey
      rcases emitted_id_cases h hregistry hoverlay hm hmopset hidentity hp with
        ⟨hsplit, hid | hid | hid | hid⟩ | ⟨hsplit, hid⟩
      · exact .inl hid
      · exact .inr ⟨⟨p, hp, rfl⟩, .inl ⟨hsplit, hid⟩⟩
      · simp [hid, String.toList_append, hname] at hcolon
      · simp [hid, String.toList_append, hname] at hcolon
      · exact .inr ⟨⟨p, hp, rfl⟩, .inr ⟨hsplit, hid⟩⟩

/-- What an edge refers to is written by its producer only. -/
theorem eq_of_target_mem_writtenKeys {i q : Nat} {producer : Node}
    (hproducer : g.nodes[i]? = some producer) {e : Edge} {target : Source}
    (htarget : e.target producer (l.regime g options) = .ok target)
    (houtput : e.output < producer.outputs.length) (hq : q < g.size)
    (hkey : target.id ∈ l.writtenKeys g options q) : q = i := by
  obtain ⟨a, ha, rfl⟩ := Edge.target_eq_ok_iff.1 htarget
  have hlt := (List.getElem?_eq_some_iff.1 hproducer).1
  have hm : g.nodes[q]? = some g.nodes[q] := List.getElem?_eq_getElem hq
  obtain ⟨-, hb, -, -, -, -, -, -⟩ := loweredAt_of_lower h hregistry hm
  have hpopset := hopset _ (List.mem_of_getElem? hproducer)
  have hmopset := hopset _ (List.mem_of_getElem? hm)
  have hpname := (hplain _ (List.mem_of_getElem? hproducer)).2
  have hmname := (hplain _ (List.mem_of_getElem? hm)).2
  have hcolon := Node.colon_mem_identity ha
  by_cases hseveral : producer.hasOutputIdentities (l.regime g options) = true
  · -- the edge refers to a single output, whose identity only a crop can have
    simp only [hseveral, if_true] at hkey
    obtain ⟨-, hkey | ⟨⟨p, hp, hid⟩, hkey⟩⟩ := mem_writtenKeys_cases h hregistry hoverlay hopset
      hplain
      hm hb (by rw [String.toList_append]; exact List.mem_append_left _ hcolon) hkey
    · obtain ⟨-, hname⟩ := hpopset.eq_of_identity_append_eq hmopset ha hb (y := "")
        (by rw [hkey, String.append_empty])
      exact absurd (String.append_empty.symm.trans hname.symm) (hmname _ _)
    · rcases hkey with ⟨-, hkey⟩ | ⟨hcrop, k, hkey⟩
      · exact absurd hkey (append_outputSuffix_ne (c := 'e') (by decide) (by decide))
      · obtain ⟨htype, -⟩ := hpopset.eq_of_identity_append_eq hmopset ha hb hkey
        obtain ⟨p', hp', hid'⟩ := exists_emitted_crop h hregistry hoverlay hproducer hpopset ha
          ((Node.isSplit_congr htype).trans hcrop) houtput
        exact eq_of_emitted_id_eq h hregistry hq hlt hp hp' (hid.trans hid'.symm)
  · simp only [hseveral] at hkey
    obtain ⟨hne, hkey | ⟨⟨p, hp, hid⟩, hkey⟩⟩ :=
      mem_writtenKeys_cases h hregistry hoverlay hopset hplain hm hb hcolon hkey
    · exact eq_of_identity_eq h hregistry hoverlay hopset hm hproducer hb (hkey ▸ ha) hne
        (emitted_ne_nil h hregistry hoverlay hproducer hpopset ha (by omega))
    · rcases hkey with ⟨hwhole, hkey⟩ | ⟨-, k, hkey⟩
      · obtain ⟨htype, -⟩ := hpopset.eq_of_identity_append_eq hmopset ha hb (x := "")
          (by rw [String.append_empty, hkey])
        obtain ⟨p', hp', hid'⟩ := exists_emitted_identity h hregistry hoverlay hproducer hpopset ha
          ((Node.isSplit_congr htype).trans hwhole)
        exact eq_of_emitted_id_eq h hregistry hq hlt hp hp' (hid.trans hid'.symm)
      · obtain ⟨-, hname⟩ := hpopset.eq_of_identity_append_eq hmopset ha hb (x := "")
          (by rw [String.append_empty, hkey])
        exact absurd (String.append_empty.symm.trans hname) (hpname _ _)

/-- When names are plain, every edge leads to the primitive that holds the output it reads. -/
theorem routesRight_of_plainNames (hg : g.Consistent) : l.RoutesRight g options := by
  intro j n a e hn he
  obtain ⟨source, producer, target, hsource, hproducer, htarget, hid, -⟩ :=
    exists_source hregistry h hn he
  have hj := (List.getElem?_eq_some_iff.1 hn).1
  obtain ⟨type, hearlier, producer', hproducer', htype⟩ :=
    hg.leads_of_mem hn (List.mem_of_getElem? he)
  obtain rfl := Option.some.inj (hproducer.symm.trans hproducer')
  have houtput := (List.getElem?_eq_some_iff.1 htype).1
  have honly := fun q => eq_of_target_mem_writtenKeys h hregistry hoverlay hopset hplain (q := q)
    hproducer htarget houtput
  obtain ⟨q, hq, hkey, -⟩ := exists_lastWriter h hregistry (Nat.le_of_lt hj) hid
  obtain rfl := honly q (Nat.lt_trans hq hj) hkey
  have hpopset := hopset _ (List.mem_of_getElem? hproducer)
  have hunshadowed : l.Unshadowed g options j e := by
    refine ⟨producer, target, hproducer, htarget, ?_, ?_⟩
    · cases hsplit : producer.isSplit with
      | false =>
          cases hseveral : producer.hasOutputIdentities (l.regime g options) with
          | false => exact .inr rfl
          | true =>
              exact absurd hkey
                (target_notMem_writtenKeys h hregistry hoverlay hproducer hpopset htarget hsplit
                  hseveral)
      | true => exact .inl rfl
    · intro q hlater hqj hkey
      have := honly q (Nat.lt_trans hqj hj) hkey
      omega
  obtain ⟨p, hp, hsame⟩ := (source_eq_holder_iff hregistry h hn hoverlay hg hopset he hsource).2
    hunshadowed
  exact ⟨source, p, hsource, hp, hsame⟩

/-- No other primitive is handed out under the name of a result. -/
theorem eq_of_handedOut {i : Nat} {n : Node} (hn : g.nodes[i]? = some n)
    (hresult : n.isA Opset.result = true) {p q : Primitive} (hp : l.emitted g options i = [p])
    (hname : p.outputName = n.name) (hq : q ∈ (l.stateBefore g options g.size).topology.primitives)
    (hout : q.HandedOut (l.stateBefore g options g.size).topology.primitives)
    (hsame : q.outputName = p.outputName) : q = p := by
  obtain ⟨j, hj, hemitted⟩ := exists_emitted h hregistry (Nat.le_refl _) hq
  have hm : g.nodes[j]? = some g.nodes[j] := List.getElem?_eq_getElem hj
  obtain @⟨label, identity, r, sources, ps, hlabel, hidentity, -, -, hemits, hemits_eq, -, -⟩ :=
    loweredAt_of_lower h hregistry hm
  obtain ⟨kind, hkind, rfl⟩ := Node.label_eq_ok_iff.1 hlabel
  obtain ⟨q', hq', rfl⟩ := List.mem_map.1 (hemits_eq ▸ hemitted)
  rw [hname] at hsame
  by_cases hqresult : (q'.labelled ⟨g.nodes[j].name, kind⟩ identity).detached.isResult = true
  · -- two results of one name are one node
    have hother : g.nodes[j].isA Opset.result = true := by
      apply (hopset _ (List.mem_of_getElem? hm)).isA_result_of_name hkind
      exact Primitive.kindName_eq_of_isResult hqresult
    have hmname : g.nodes[j].name = n.name := by
      rw [Primitive.outputName, Step.outputName, if_pos hqresult] at hsame
      exact hsame
    obtain rfl := eq_of_result_name_eq h hregistry hoverlay hopset hn hm hresult hother hmname.symm
    exact List.mem_singleton.1 (hp ▸ hemitted)
  · -- any other primitive is handed out under its identifier, and one without a colon is read
    rcases hout with hout | ⟨hunread, -⟩
    · exact absurd hout hqresult
    · rw [Primitive.outputName, Step.outputName, if_neg hqresult] at hsame
      have hcolon : ':' ∉ q'.id.toList := by
        have hid : q'.id = n.name := hsame
        rw [hid]
        exact (hplain _ (List.mem_of_getElem? hn)).1
      obtain ⟨user, huser, s, hs, hid⟩ :=
        hemits.exists_user (Node.colon_mem_identity hidentity) hq' hcolon
      have hmem := emitted_subset h hregistry hj (Nat.le_refl _)
        (hemits_eq ▸ List.mem_map_of_mem (f := Primitive.labelled ⟨g.nodes[j].name, kind⟩ identity)
          huser)
      exact absurd hid (hunread _ hmem s hs)

end

end Lowerer

end TensorLowering
