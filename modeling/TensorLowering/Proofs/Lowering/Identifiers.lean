import TensorLowering.Proofs.Lowering.Routing
import TensorLowering.Proofs.Lowering.Support

/-!
# The identifiers of a node

Which identifiers a node can be lowered to is known before it is lowered: the identity of the node,
those of its outputs if it is a split, and, for a product, those of the permutations in front of it
and the reshape behind it. Only the last kind can be the identity of another node.

## Main statements

* `Emits.id_mem_iff`: a node is lowered to identifiers of its own, and to all of them.
* `Graph.DerivesFresh.eq_of_mem_ownIds`: when nothing derived is an identity, no two nodes share an
  identifier.
-/

namespace TensorLowering

/-- The number of an output stands behind one word only. -/
theorem eq_of_append_outputSuffix_eq {a b : String} {j k : Nat}
    (h : a ++ outputSuffix j = b ++ outputSuffix k) : a = b := by
  have hchars : ∀ (a : String) (k : Nat), (a ++ outputSuffix k).toList.reverse =
      (Nat.toDigits 10 k).reverse ++ 't' :: (".ou".toList.reverse ++ a.toList.reverse) := by
    intro a k
    simp [outputSuffix, String.toList_append]
  have hdigits : ∀ k : Nat, 't' ∉ (Nat.toDigits 10 k).reverse := by
    intro k hmem
    have hdigit := Nat.isDigit_of_mem_toDigits (by decide) (by decide) (List.mem_reverse.1 hmem)
    revert hdigit
    decide
  have hreverse : (a ++ outputSuffix j).toList.reverse = (b ++ outputSuffix k).toList.reverse := by
    rw [h]
  rw [hchars, hchars] at hreverse
  obtain ⟨-, hback⟩ := eq_of_append_cons_eq (hdigits j) (hdigits k) hreverse
  exact String.toList_inj.1 (List.reverse_inj.1 (List.append_cancel_left hback))

namespace BuildContext

variable {ctx : BuildContext} {n m : Node} {identity a b id : String}

/-- The identifiers that a product derives: those of the permutations in front of it, when
transposes are moved there, and that of the reshape behind it under the legacy inference. -/
def derivedIds (ctx : BuildContext) (n : Node) (identity : String) : List String :=
  match n.isA Opset.matMul, n.inputTypes[0]?, n.inputTypes[1]?, n.outputs[0]? with
  | true, some a, some b, some type =>
    (if ctx.moves n a b && n.switch "transpose_a" false then [n.name ++ "/transpose_a"] else []) ++
      (if ctx.moves n a b && n.switch "transpose_b" false then [n.name ++ "/transpose_b"]
        else []) ++
      (if !ctx.newShapeInference && type.shape.rank < Rule.nativeProductRank then
        [identity ++ "_out_reshape"] else [])
  | _, _, _, _ => []

/-- The identifiers that a node with an identity can be lowered to. -/
def ownIds (ctx : BuildContext) (n : Node) (identity : String) : List String :=
  if n.isSplit then (List.range n.outputs.length).map fun k => identity ++ outputSuffix k
  else identity :: ctx.derivedIds n identity

theorem derivedIds_cases (h : id ∈ ctx.derivedIds n identity) :
    n.isA Opset.matMul = true ∧ (id = n.name ++ "/transpose_a" ∨ id = n.name ++ "/transpose_b" ∨
      id = identity ++ "_out_reshape") := by
  rw [derivedIds] at h
  split at h
  · next hmatMul _ _ _ =>
    refine ⟨hmatMul, ?_⟩
    rw [List.mem_append, List.mem_append] at h
    rcases h with (h | h) | h
    · split at h
      · exact .inl (List.mem_singleton.1 h)
      · cases h
    · split at h
      · exact .inr (.inl (List.mem_singleton.1 h))
      · cases h
    · split at h
      · exact .inr (.inr (List.mem_singleton.1 h))
      · cases h
  · cases h

end BuildContext

/-- A shape with sizes has as many as it has axes. -/
theorem Shape.length_of_sizes? {shape : Shape} {sizes : List Nat} (h : shape.sizes? = some sizes) :
    sizes.length = shape.rank :=
  (Outcome.mapM_eq_some_iff.1 h).length_eq.symm

theorem Operand.map_id {n : Node} {side : String} {shape : Shape} {source input : Source}
    {moved : Bool} {ps : List Primitive} (h : Operand n side shape source moved ps input) :
    ps.map Primitive.id = if moved then [n.name ++ side] else [] := by
  cases h with
  | stays => rfl
  | moves => rfl

theorem ProductTail.map_id {newShapeInference : Bool} {identity : String} {type : TensorType}
    {ps : List Primitive} (h : ProductTail newShapeInference identity type ps) :
    ps.map Primitive.id =
      if !newShapeInference && type.shape.rank < Rule.nativeProductRank then
        [identity ++ "_out_reshape"] else [] := by
  cases h with
  | none regime => simp [regime]
  | native regime static rank =>
      rw [Shape.length_of_sizes? static] at rank
      simp [Nat.not_lt.2 rank]
  | reshape regime static rank =>
      rw [Shape.length_of_sizes? static] at rank
      simp [regime, rank]

/-- A node is lowered to identifiers of its own, and to all of them. -/
theorem Emits.id_mem_iff {ctx : BuildContext} {n : Node} {identity id : String}
    {sources : List Source} {r : RuleName} {ps : List Primitive}
    (h : Emits ctx n identity sources r ps) (hsplit : r = .split ↔ n.isSplit = true)
    (hmatMul : r = .matMul ↔ n.isA Opset.matMul = true) :
    id ∈ ps.map Primitive.id ↔ id ∈ ctx.ownIds n identity := by
  cases h with
  | one becomes =>
      have hsplit' : n.isSplit = false := by
        rw [Bool.eq_false_iff, ne_eq, ← hsplit]
        rintro rfl
        cases becomes
      have hmatMul' : n.isA Opset.matMul = false := by
        rw [Bool.eq_false_iff, ne_eq, ← hmatMul]
        rintro rfl
        cases becomes
      have hderived : ctx.derivedIds n identity = [] := by
        rw [BuildContext.derivedIds, hmatMul']
      simp [BuildContext.ownIds, hsplit', hderived]
  | split _ _ _ _ _ crops =>
      rw [BuildContext.ownIds, if_pos (hsplit.1 rfl), List.mem_map, List.mem_map]
      constructor
      · rintro ⟨p, hp, rfl⟩
        obtain ⟨k, hk⟩ := List.mem_iff_getElem?.1 hp
        obtain ⟨hid, -⟩ := crops.getElem?_eq_some hk
        have hlt : k < ps.length := (List.getElem?_eq_some_iff.1 hk).1
        exact ⟨k, List.mem_range.2 (crops.length_eq ▸ hlt), by rw [hid, Nat.zero_add]⟩
      · rintro ⟨k, hk, rfl⟩
        have hlt : k < ps.length := crops.length_eq.symm ▸ List.mem_range.1 hk
        obtain ⟨hid, -⟩ := crops.getElem?_eq_some (List.getElem?_eq_getElem hlt)
        exact ⟨ps[k], List.getElem_mem hlt, by rw [hid, Nat.zero_add]⟩
  | @matMul a b type _ _ _ _ psA psB tail _ _ _ typeA typeB output operandA operandB behind =>
      have hnot : n.isSplit = false := by
        rw [Bool.eq_false_iff, ne_eq, ← hsplit]
        simp
      have hderived : ctx.derivedIds n identity =
          psA.map Primitive.id ++ psB.map Primitive.id ++ tail.map Primitive.id := by
        simp only [BuildContext.derivedIds, hmatMul.1 rfl, typeA, typeB, output, operandA.map_id,
          operandB.map_id, behind.map_id]
      simp only [BuildContext.ownIds, hnot, hderived, List.map_append, List.mem_append,
        List.map_singleton, Primitive.new_id, List.mem_cons, List.not_mem_nil, or_false,
        Bool.false_eq_true, if_false]
      constructor
      · rintro (((hA | hB) | hidentity) | htail)
        · exact .inr (.inl (.inl hA))
        · exact .inr (.inl (.inr hB))
        · exact .inl hidentity
        · exact .inr (.inr htail)
      · rintro (hidentity | (hA | hB) | htail)
        · exact .inl (.inr hidentity)
        · exact .inl (.inl (.inl hA))
        · exact .inl (.inl (.inr hB))
        · exact .inr htail

/-- The identity of a product. -/
theorem Node.InOpset.identity_of_matMul {n : Node} (hn : n.InOpset)
    (hmatMul : n.isA Opset.matMul = true) : n.identity = .ok ("matmul:" ++ n.name) := by
  have hlower : n.layerType? = some "matmul" := by
    rw [Node.layerType?, hn.kind?_eq_of_isA (by decide) hmatMul]
    decide
  rw [Node.identity, Node.identity?, hlower]
  rfl

/-- Without overlays an operation is lowered to identifiers of its own, and to all of them. -/
theorem Lowerer.id_mem_ownIds_iff {l : Lowerer} {ctx : BuildContext} {n : Node}
    {identity id : String} {sources : List Source} {r : RuleName} {ps : List Primitive}
    (hoverlay : l.overlay = .empty) (hn : n.InOpset) (hr : l.ruleName? n = some r)
    (h : Emits ctx n identity sources r ps) :
    id ∈ ps.map Primitive.id ↔ id ∈ ctx.ownIds n identity :=
  h.id_mem_iff (ruleName?_eq_split_iff hoverlay hn hr) (ruleName?_eq_matMul_iff hoverlay hn hr)

/-- No identifier that a product derives is the identity of a node that is lowered under its
identity. -/
def Graph.DerivesFresh (g : Graph) (ctx : BuildContext) : Prop :=
  ∀ n ∈ g.nodes, ∀ a, n.identity = .ok a → ∀ id ∈ ctx.derivedIds n a,
    ∀ m ∈ g.nodes, m.isSplit = false → m.identity ≠ .ok id

theorem Graph.derivesFresh_iff {g : Graph} {ctx : BuildContext} : g.DerivesFresh ctx ↔
    ∀ n ∈ g.nodes, ∀ a ∈ n.identity?, ∀ id ∈ ctx.derivedIds n a,
      ∀ m ∈ g.nodes, m.isSplit = false → m.identity? ≠ some id := by
  simp only [DerivesFresh, Node.identity, Outcome.ofOption_eq_ok_iff, Option.mem_def, ne_eq]

instance (g : Graph) (ctx : BuildContext) : Decidable (g.DerivesFresh ctx) :=
  decidable_of_iff _ Graph.derivesFresh_iff.symm

namespace BuildContext

variable {ctx : BuildContext} {n m : Node} {a b id : String} (hn : n.InOpset) (hm : m.InOpset)
  (ha : n.identity = .ok a) (hb : m.identity = .ok b)
include hn hm ha hb

/-- Products of one name have one identity. -/
theorem identity_eq_of_matMul (hnmatMul : n.isA Opset.matMul = true)
    (hmmatMul : m.isA Opset.matMul = true) (hname : n.name = m.name) : a = b := by
  rw [hn.identity_of_matMul hnmatMul] at ha
  rw [hm.identity_of_matMul hmmatMul] at hb
  rw [← Except.ok.inj ha, ← Except.ok.inj hb, hname]

/-- Identifiers that two products derive are different, unless the products have one identity. -/
theorem eq_of_mem_derivedIds (hid : id ∈ ctx.derivedIds n a) (hid' : id ∈ ctx.derivedIds m b) :
    a = b := by
  obtain ⟨hnmatMul, hncases⟩ := derivedIds_cases hid
  obtain ⟨hmmatMul, hmcases⟩ := derivedIds_cases hid'
  have hsame := identity_eq_of_matMul hn hm ha hb hnmatMul hmmatMul
  have hends : ∀ {x y : String} {s t : String}, s.toList.length = t.toList.length →
      s.toList ≠ t.toList → id = x ++ s → id = y ++ t → a = b :=
    fun hlength hne hx hy => absurd (hx.symm.trans hy) (append_ne_append hlength hne)
  rcases hncases with hx | hx | hx <;> rcases hmcases with hy | hy | hy
  · exact hsame (String.append_left_inj _ |>.1 (hx.symm.trans hy))
  · exact hends (by decide) (by decide) hx hy
  · exact hends (by decide) (by decide) hx hy
  · exact hends (by decide) (by decide) hx hy
  · exact hsame (String.append_left_inj _ |>.1 (hx.symm.trans hy))
  · exact hends (by decide) (by decide) hx hy
  · exact hends (by decide) (by decide) hx hy
  · exact hends (by decide) (by decide) hx hy
  · exact String.append_left_inj _ |>.1 (hx.symm.trans hy)

/-- What a split is lowered to is not what a node that is no split can be lowered to. -/
theorem append_outputSuffix_notMem_ownIds (hnsplit : n.isSplit = true) (hmsplit : m.isSplit = false)
    (k : Nat) : a ++ outputSuffix k ∉ ctx.ownIds m b := by
  rw [ownIds, hmsplit]
  intro hid
  rcases List.mem_cons.1 hid with hid | hid
  · obtain ⟨htype, -⟩ := hn.eq_of_identity_append_eq hm ha hb (y := "")
      (by rw [hid, String.append_empty])
    rw [Node.isSplit_congr htype, hmsplit] at hnsplit
    cases hnsplit
  · obtain ⟨-, hid | hid | hid⟩ := derivedIds_cases hid
    · exact append_outputSuffix_ne (c := 'a') (by decide) (by decide) hid
    · exact append_outputSuffix_ne (c := 'b') (by decide) (by decide) hid
    · exact append_outputSuffix_ne (c := 'e') (by decide) (by decide) hid

omit hm hb in
/-- A product does not derive its own identity. -/
theorem identity_notMem_derivedIds : a ∉ ctx.derivedIds n a := by
  intro hmem
  obtain ⟨hmatMul, hcases⟩ := derivedIds_cases hmem
  have hlonger : ∀ {x y : String}, x.length ≠ y.length → x ≠ y := fun hne h => hne (h ▸ rfl)
  have hlength : a.length = 7 + n.name.length := by
    rw [hn.identity_of_matMul hmatMul] at ha
    rw [← Except.ok.inj ha, String.length_append]
    rfl
  have hword : "/transpose_a".length = 12 ∧ "/transpose_b".length = 12 ∧
      "_out_reshape".length = 12 := by decide
  rcases hcases with h | h | h
  all_goals
    refine hlonger ?_ h
    rw [String.length_append]
    omega

end BuildContext

/-- When nothing derived is an identity, nodes of different identities share no identifier. -/
theorem Graph.DerivesFresh.eq_of_mem_ownIds {g : Graph} {ctx : BuildContext}
    (hfresh : g.DerivesFresh ctx) (hopset : g.InOpset) {n m : Node} (hn : n ∈ g.nodes)
    (hm : m ∈ g.nodes) {a b id : String} (ha : n.identity = .ok a) (hb : m.identity = .ok b)
    (hid : id ∈ ctx.ownIds n a) (hid' : id ∈ ctx.ownIds m b) : a = b := by
  have hnopset := hopset n hn
  have hmopset := hopset m hm
  cases hnsplit : n.isSplit with
  | true =>
      rw [BuildContext.ownIds, if_pos hnsplit] at hid
      obtain ⟨j, -, rfl⟩ := List.mem_map.1 hid
      cases hmsplit : m.isSplit with
      | true =>
          rw [BuildContext.ownIds, if_pos hmsplit] at hid'
          obtain ⟨k, -, heq⟩ := List.mem_map.1 hid'
          exact (eq_of_append_outputSuffix_eq heq).symm
      | false =>
          exact absurd hid' (BuildContext.append_outputSuffix_notMem_ownIds hnopset hmopset ha hb
            hnsplit hmsplit j)
  | false =>
      cases hmsplit : m.isSplit with
      | true =>
          rw [BuildContext.ownIds, if_pos hmsplit] at hid'
          obtain ⟨k, -, rfl⟩ := List.mem_map.1 hid'
          exact absurd hid (BuildContext.append_outputSuffix_notMem_ownIds hmopset hnopset hb ha
            hmsplit hnsplit k)
      | false =>
          rw [BuildContext.ownIds, hnsplit] at hid
          rw [BuildContext.ownIds, hmsplit] at hid'
          rcases List.mem_cons.1 hid with rfl | hid
          · rcases List.mem_cons.1 hid' with heq | hid'
            · exact heq
            · exact absurd ha (hfresh m hm b hb _ hid' n hn hnsplit)
          · rcases List.mem_cons.1 hid' with rfl | hid'
            · exact absurd hb (hfresh n hn a ha _ hid m hm hmsplit)
            · exact BuildContext.eq_of_mem_derivedIds hnopset hmopset ha hb hid hid'

end TensorLowering
