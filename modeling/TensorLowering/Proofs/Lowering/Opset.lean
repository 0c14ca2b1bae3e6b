import TensorLowering.Proofs.Lowering.Rules

/-!
# Operations of the operation sets

The kinds of the operation sets are told apart by their names in lowercase, which have no colon in
them. So an identity can be taken apart again at its first colon, into the type of the operation and
the name of the node, whatever the name is.
-/

namespace TensorLowering

namespace Opset

/-- The types of the operations of the set. -/
def types : List OpType :=
  reductions.map (fun kind => ⟨[kind, reduction]⟩) ++ basic.map .single

theorem mem_types_of_type? {name : String} {type : OpType} (h : type? name = some type) :
    type ∈ types := by
  rw [type?] at h
  split at h
  · next kind hkind =>
    obtain rfl := Option.some.inj h
    exact List.mem_append_left _ (List.mem_map_of_mem (List.mem_of_find?_eq_some hkind))
  · obtain ⟨kind, hkind, rfl⟩ := Option.map_eq_some_iff.1 h
    exact List.mem_append_right _ (List.mem_map_of_mem (List.mem_of_find?_eq_some hkind))

theorem type?_of_mem_types :
    ∀ type ∈ types, (type.kind?.bind fun kind => type? kind.name) = some type := by
  decide

/-- The name of the kind of a type in lowercase. -/
def lowercaseName? (type : OpType) : Option String :=
  type.kind?.map fun kind => Text.lowercase kind.name

theorem colon_notMem_of_mem_types :
    ∀ type ∈ types, ∀ name ∈ lowercaseName? type, ':' ∉ name.toList := by
  decide

/-- The kinds that are of no other kind, and no splits. -/
def wholes : List OpKind := [constant, result, matMul]

theorem eq_single_of_isA : ∀ kind ∈ wholes, ∀ type ∈ types, type.isA kind = true →
    type = .single kind := by
  decide

theorem isA_split_of_mem_wholes : ∀ kind ∈ wholes,
    ((OpType.single kind).isA split || (OpType.single kind).isA variadicSplit) = false := by
  decide

theorem eq_result_of_name : ∀ type ∈ types, ∀ kind ∈ type.kind?, kind.name = "Result" →
    type = .single result := by
  decide

theorem eq_of_lowercaseName?_eq : ∀ type ∈ types, ∀ other ∈ types,
    lowercaseName? type = lowercaseName? other → type = other := by
  decide

end Opset

namespace RuleName

/-- The rule that a type has without overlays. -/
def ofType? (type : OpType) : Option RuleName :=
  type.levels.findSome? fun level => table.lookup level

/-- Exactly the splits are lowered by the rule of splits. -/
theorem ofType?_eq_split_iff : ∀ type ∈ Opset.types,
    (ofType? type = some .split ↔
      (type.isA Opset.split || type.isA Opset.variadicSplit) = true) := by
  decide

/-- Exactly the products are lowered by the rule of products. -/
theorem ofType?_eq_matMul_iff : ∀ type ∈ Opset.types,
    (ofType? type = some .matMul ↔ type.isA Opset.matMul = true) := by
  decide

/-- The names of the kinds that a rule is for. -/
def kindNames : RuleName → List String
  | parameter => ["Parameter"]
  | constant => ["Constant"]
  | result => ["Result"]
  | eltwise => Opset.elementwise.map OpKind.name
  | erf => ["Erf"]
  | reduction => Opset.reduction.name :: Opset.reductions.map OpKind.name
  | split => ["Split", "VariadicSplit"]
  | transpose => ["Transpose"]
  | reshape => ["Reshape"]
  | concat => ["Concat"]
  | matMul => ["MatMul"]
  | fullyConnected => ["FullyConnected"]
  | fullyConnectedCompressed => ["FullyConnectedCompressed"]
  | kernel _ => []

/-- The rule of a type is for the kind of the type. -/
theorem name_mem_kindNames : ∀ type ∈ Opset.types, ∀ kind ∈ type.kind?, ∀ r ∈ ofType? type,
    kind.name ∈ r.kindNames := by
  decide

end RuleName

/-- A node whose type is one of the operation sets. -/
def Node.InOpset (n : Node) : Prop := ∃ name, Opset.type? name = some n.type

theorem Node.inOpset_iff {n : Node} : n.InOpset ↔ n.type ∈ Opset.types := by
  constructor
  · rintro ⟨name, hname⟩
    exact Opset.mem_types_of_type? hname
  · intro h
    obtain ⟨kind, -, hkind⟩ := Option.bind_eq_some_iff.1 (Opset.type?_of_mem_types _ h)
    exact ⟨kind.name, hkind⟩

/-- A graph of operations of the operation sets. -/
def Graph.InOpset (g : Graph) : Prop := ∀ n ∈ g.nodes, n.InOpset

theorem Graph.inOpset_iff {g : Graph} : g.InOpset ↔ ∀ n ∈ g.nodes, n.type ∈ Opset.types := by
  simp only [Graph.InOpset, Node.inOpset_iff]

/-- Lists are cut at the first place of an entry in one way only. -/
theorem eq_of_append_cons_eq {α : Type} {c : α} {as bs xs ys : List α} (ha : c ∉ as) (hb : c ∉ bs)
    (h : as ++ c :: xs = bs ++ c :: ys) : as = bs ∧ xs = ys := by
  induction as generalizing bs with
  | nil =>
      cases bs with
      | nil => exact ⟨rfl, (List.cons.inj h).2⟩
      | cons b bs => exact absurd ((List.cons.inj h).1 ▸ List.mem_cons_self) hb
  | cons a as ih =>
      cases bs with
      | nil => exact absurd ((List.cons.inj h).1 ▸ List.mem_cons_self) ha
      | cons b bs =>
          obtain ⟨rfl, hrest⟩ := List.cons.inj h
          obtain ⟨rfl, rfl⟩ := ih (List.not_mem_of_not_mem_cons ha)
            (List.not_mem_of_not_mem_cons hb) hrest
          exact ⟨rfl, rfl⟩

/-- Words that come before their first colons are equal when the whole texts are. -/
theorem eq_of_append_colon_append_eq {a b x y : String} (ha : ':' ∉ a.toList) (hb : ':' ∉ b.toList)
    (h : a ++ ":" ++ x = b ++ ":" ++ y) : a = b ∧ x = y := by
  have hchars : a.toList ++ ':' :: x.toList = b.toList ++ ':' :: y.toList := by
    simpa [String.toList_append] using congrArg String.toList h
  obtain ⟨hfront, hback⟩ := eq_of_append_cons_eq ha hb hchars
  exact ⟨String.toList_inj.1 hfront, String.toList_inj.1 hback⟩

namespace Node

variable {n m : Node} {a b x y : String}

/-- Two identities with something behind them are only equal when the types are, and the names with
the same behind them. -/
theorem InOpset.eq_of_identity_append_eq (hn : n.InOpset) (hm : m.InOpset) (ha : n.identity = .ok a)
    (hb : m.identity = .ok b) (h : a ++ x = b ++ y) :
    n.type = m.type ∧ n.name ++ x = m.name ++ y := by
  obtain ⟨_, hntype⟩ := hn
  obtain ⟨_, hmtype⟩ := hm
  obtain ⟨kind, hkind, rfl⟩ := identity_eq_ok_iff.1 ha
  obtain ⟨other, hother, rfl⟩ := identity_eq_ok_iff.1 hb
  have hnmem := Opset.mem_types_of_type? hntype
  have hmmem := Opset.mem_types_of_type? hmtype
  have hnlower : Opset.lowercaseName? n.type = some (Text.lowercase kind.name) := by
    rw [Opset.lowercaseName?]
    exact congrArg _ hkind
  have hmlower : Opset.lowercaseName? m.type = some (Text.lowercase other.name) := by
    rw [Opset.lowercaseName?]
    exact congrArg _ hother
  obtain ⟨hlower, hnames⟩ := eq_of_append_colon_append_eq
    (Opset.colon_notMem_of_mem_types _ hnmem _ hnlower)
    (Opset.colon_notMem_of_mem_types _ hmmem _ hmlower)
    (by simpa only [String.append_assoc] using h)
  refine ⟨Opset.eq_of_lowercaseName?_eq _ hnmem _ hmmem ?_, hnames⟩
  rw [hnlower, hmlower, hlower]

theorem isSplit_congr (htype : n.type = m.type) : n.isSplit = m.isSplit := by
  rw [isSplit, isSplit, isA, isA, isA, isA, htype]

section

variable (hn : n.InOpset) {kind : OpKind} (hkind : kind ∈ Opset.wholes) (h : n.isA kind = true)
include hn hkind h

/-- A constant, a result or a product is of no other type. -/
theorem InOpset.type_eq_of_isA : n.type = .single kind :=
  Opset.eq_single_of_isA _ hkind _ (inOpset_iff.1 hn) h

theorem InOpset.kind?_eq_of_isA : n.kind? = some kind := by
  rw [kind?, hn.type_eq_of_isA hkind h]
  rfl

theorem InOpset.isSplit_of_isA : n.isSplit = false := by
  rw [isSplit, isA, isA, hn.type_eq_of_isA hkind h]
  exact Opset.isA_split_of_mem_wholes kind hkind

end

/-- A node whose kind has the name of results is a result. -/
theorem InOpset.isA_result_of_name (hn : n.InOpset) {kind : OpKind} (hkind : n.kind? = some kind)
    (hname : kind.name = "Result") : n.isA Opset.result = true := by
  rw [isA, Opset.eq_result_of_name _ (inOpset_iff.1 hn) _ hkind hname]
  decide

/-- Every identity has a colon. -/
theorem colon_mem_identity (ha : n.identity = .ok a) : ':' ∈ a.toList := by
  obtain ⟨kind, -, rfl⟩ := identity_eq_ok_iff.1 ha
  simp [String.toList_append]

end Node

namespace Lowerer

variable {l : Lowerer} {n : Node} {r : RuleName}

/-- Without overlays the rule of a node is that of its type. -/
theorem ruleName?_of_empty (hoverlay : l.overlay = .empty) {kind : OpKind}
    (hkind : n.kind? = some kind) :
    l.ruleName? n = RuleName.ofType? n.type := by
  have hnone : l.overlay.get? kind.name = none := by
    rw [hoverlay]
    rfl
  simp [ruleName?, hkind, hnone, RuleName.ofType?]

/-- Without overlays the rule of a node is one that its type has. -/
theorem ofType?_eq_of_ruleName? (hoverlay : l.overlay = .empty) (hr : l.ruleName? n = some r) :
    RuleName.ofType? n.type = some r := by
  obtain ⟨kind, hkind⟩ : ∃ kind, n.kind? = some kind := by
    cases hkind : n.kind? with
    | none => simp [ruleName?, hkind] at hr
    | some kind => exact ⟨kind, rfl⟩
  rw [← ruleName?_of_empty hoverlay hkind, hr]

/-- Without overlays a node is lowered by a rule for its kind. -/
theorem name_mem_kindNames (hoverlay : l.overlay = .empty) (hn : n.InOpset)
    (hr : l.ruleName? n = some r) {kind : OpKind} (hkind : n.kind? = some kind) :
    kind.name ∈ r.kindNames :=
  RuleName.name_mem_kindNames _ (Node.inOpset_iff.1 hn) _ hkind _
    (ofType?_eq_of_ruleName? hoverlay hr)

/-- Without overlays exactly the splits are lowered by the rule of splits. -/
theorem ruleName?_eq_split_iff (hoverlay : l.overlay = .empty) (hn : n.InOpset)
    (hr : l.ruleName? n = some r) : r = .split ↔ n.isSplit = true := by
  have hiff := RuleName.ofType?_eq_split_iff _ (Node.inOpset_iff.1 hn)
  rw [ofType?_eq_of_ruleName? hoverlay hr, Option.some_inj] at hiff
  exact hiff

/-- Without overlays exactly the products are lowered by the rule of products. -/
theorem ruleName?_eq_matMul_iff (hoverlay : l.overlay = .empty) (hn : n.InOpset)
    (hr : l.ruleName? n = some r) : r = .matMul ↔ n.isA Opset.matMul = true := by
  have hiff := RuleName.ofType?_eq_matMul_iff _ (Node.inOpset_iff.1 hn)
  rw [ofType?_eq_of_ruleName? hoverlay hr, Option.some_inj] at hiff
  exact hiff

end Lowerer

/-- The number of an output ends in a digit. -/
theorem exists_getLast?_outputSuffix (k : Nat) :
    ∃ c, (outputSuffix k).toList.getLast? = some c ∧ c.isDigit = true := by
  have hne : Nat.toDigits 10 k ≠ [] := Nat.toDigits_ne_nil
  have hchars : (outputSuffix k).toList = ".out".toList ++ Nat.toDigits 10 k := by
    simp [outputSuffix, String.toList_append]
  refine ⟨(Nat.toDigits 10 k).getLast hne, ?_, ?_⟩
  · rw [hchars, List.getLast?_append, List.getLast?_eq_some_getLast hne]
    rfl
  · exact Nat.isDigit_of_mem_toDigits (by decide) (by decide) (List.getLast_mem hne)

/-- What ends in the number of an output does not end in a word without a digit at its end. -/
theorem append_outputSuffix_ne {a b x : String} {k : Nat} {c : Char}
    (hx : x.toList.getLast? = some c) (hc : c.isDigit = false) : a ++ outputSuffix k ≠ b ++ x := by
  intro h
  have hchars := congrArg String.toList h
  rw [String.toList_append, String.toList_append] at hchars
  obtain ⟨d, hd, hdigit⟩ := exists_getLast?_outputSuffix k
  have hlast := congrArg List.getLast? hchars
  rw [List.getLast?_append, List.getLast?_append, hd, hx] at hlast
  obtain rfl : d = c := by simpa using hlast
  rw [hc] at hdigit
  cases hdigit

/-- The number of an output is not empty. -/
theorem append_outputSuffix_ne_self (a : String) (k : Nat) : a ++ outputSuffix k ≠ a := by
  intro h
  have hlength := congrArg (fun s : String => s.toList.length) h
  simp [String.toList_append, outputSuffix] at hlength

end TensorLowering
