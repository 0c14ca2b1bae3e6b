import Mathlib.Data.List.Induction
import TensorLowering.Proofs.Lowering.History
import TensorLowering.Proofs.Topology.Schedule

/-!
# Builds stay consistent

Adding a primitive writes the identity map before the topology may refuse the primitive. That does no
harm: a primitive is only refused when another one has its identifier already, so whatever is asked
of a build, in whatever order, the identity map leads to primitives of the topology and knows all of
them.

## Main statements

* `BuildState.Consistent.add`: one more primitive, added or refused, keeps a build consistent.
* `Lowerer.builds_consistent`: every build is consistent, and a graph that is lowered leaves an
  entry for each of its nodes that has outputs.
-/

namespace TensorLowering

namespace IdentityMap

/-- Aliases lead to the primitive that they are declared for. -/
theorem get?_foldl_insert (aliases : List String) (ids : IdentityMap) (id key : String) :
    (aliases.foldl (fun ids other => ids.insert other id) ids).get? key =
      if key ∈ aliases then some id else ids.get? key := by
  induction aliases generalizing ids with
  | nil => simp
  | cons other rest ih =>
      rw [List.foldl_cons, ih, NameMap.get?_insert]
      by_cases hrest : key ∈ rest <;> by_cases hother : key = other <;> simp [hrest, hother]

end IdentityMap

namespace BuildState

variable (s : BuildState) (profiling : Bool) (label : NodeLabel) (identity : String)
  (p : Primitive) (aliases : List String)

/-- Adding a primitive writes its identifier under the identity of the node, under the identifier
itself and under the aliases, also when the topology refuses it. -/
theorem get?_ids_add (key : String) :
    (s.add profiling label identity p aliases).1.ids.get? key =
      if key = identity ∨ key = p.id ∨ key ∈ aliases then some p.id else s.ids.get? key := by
  have hids : (s.add profiling label identity p aliases).1.ids =
      aliases.foldl (fun ids other => ids.insert other p.id) (s.ids.note identity p.id) := by
    simp only [add]
    split <;> rfl
  rw [hids, IdentityMap.get?_foldl_insert, IdentityMap.get?_note]
  by_cases halias : key ∈ aliases <;> by_cases hidentity : key = identity <;>
    by_cases hid : key = p.id <;> simp [halias, hidentity, hid]

/-- What becomes of the topology is decided by the topology alone. -/
theorem topology_add :
    ((s.add profiling label identity p aliases).1.topology,
        (s.add profiling label identity p aliases).2) =
      match s.topology.add (p.labelled label identity) with
      | .ok t => (t, .ok ())
      | .error e => (s.topology, .error e) := by
  simp only [add, Primitive.labelled]
  cases s.topology.add _ <;> rfl

/-- A primitive with a new identifier is put at the end, and its position into the index. -/
theorem add_of_notMem (h : p.id ∉ s.topology.ids) :
    (s.add profiling label identity p aliases).2 = .ok () ∧
      (s.add profiling label identity p aliases).1.topology.ids = s.topology.ids ++ [p.id] ∧
      (s.add profiling label identity p aliases).1.topology.index =
        s.topology.index.insert p.id s.topology.size := by
  obtain ⟨t, ht, hprimitives, hindex⟩ :=
    Topology.exists_add (t := s.topology) (p := p.labelled label identity) h
  have hadd := s.topology_add profiling label identity p aliases
  rw [ht, Prod.mk.injEq] at hadd
  refine ⟨hadd.2, ?_, hadd.1 ▸ hindex⟩
  rw [hadd.1, Topology.ids, hprimitives, List.map_append]
  rfl

/-- A primitive whose identifier is there already is refused, and the topology stays what it is. -/
theorem add_of_mem (h : p.id ∈ s.topology.ids) :
    (s.add profiling label identity p aliases).2 = .error (.duplicatePrimitive p.id) ∧
      (s.add profiling label identity p aliases).1.topology = s.topology := by
  have hrefused : s.topology.add (p.labelled label identity) =
      .error (.duplicatePrimitive p.id) := Topology.add_of_mem h
  have hadd := s.topology_add profiling label identity p aliases
  rw [hrefused, Prod.mk.injEq] at hadd
  exact hadd.symm

/-- The identity map of a build leads to primitives of its topology, and knows every one of them. -/
structure Consistent (s : BuildState) : Prop where
  leads : ∀ key id, s.ids.get? key = some id → id ∈ s.topology.ids
  known : ∀ id ∈ s.topology.ids, s.ids.contains id = true

theorem consistent_empty : BuildState.empty.Consistent := by
  constructor
  · intro key id h
    simp [BuildState.empty] at h
  · intro id h
    simp [BuildState.empty, Topology.empty, Topology.ids] at h

/-- One more primitive keeps a build consistent, whether it is added or refused: after either, its
identifier is in the topology, and what was in the topology before still is. -/
theorem Consistent.add {s : BuildState} (h : s.Consistent) :
    (s.add profiling label identity p aliases).1.Consistent := by
  have hgrows : (s.add profiling label identity p aliases).1.topology.ids =
      if p.id ∈ s.topology.ids then s.topology.ids else s.topology.ids ++ [p.id] := by
    split
    · next hmem => rw [(s.add_of_mem profiling label identity p aliases hmem).2]
    · next hnew => exact (s.add_of_notMem profiling label identity p aliases hnew).2.1
  have hmem : ∀ id, id ∈ (s.add profiling label identity p aliases).1.topology.ids ↔
      id ∈ s.topology.ids ∨ id = p.id := by
    intro id
    rw [hgrows]
    split
    · next hmem =>
      refine ⟨.inl, ?_⟩
      rintro (hold | rfl)
      · exact hold
      · exact hmem
    · rw [List.mem_append, List.mem_singleton]
  constructor
  · intro key id hkey
    rw [get?_ids_add] at hkey
    rw [hmem]
    split at hkey
    · exact .inr (Option.some.inj hkey).symm
    · exact .inl (h.leads key id hkey)
  · intro id hid
    rw [NameMap.contains, get?_ids_add]
    split
    · rfl
    · next hother =>
      rcases (hmem id).1 hid with hold | rfl
      · exact h.known id hold
      · exact absurd (.inr (.inl rfl)) hother

end BuildState

/-- A primitive that a build is asked to add for a node, with aliases. -/
structure Addition where
  node : Node
  primitive : Primitive
  aliases : List String

namespace BuildContext

open Build

variable (ctx : BuildContext) (s : BuildState) (a : Addition)

/-- How an addition ends, and the state that it leaves behind. -/
def attempt (ctx : BuildContext) (s : BuildState) (a : Addition) :
    Outcome LoweringError Unit × BuildState :=
  runFrom (ctx.add a.node a.primitive a.aliases) s

/-- The state of a build that was asked for additions one after the other and went on behind those
that failed. -/
def stateAfter (ctx : BuildContext) (additions : List Addition) : BuildState :=
  additions.foldl (fun s a => (ctx.attempt s a).2) .empty

/-- A node without a kind adds nothing. -/
theorem attempt_of_kind?_eq_none (h : a.node.kind? = none) : ctx.attempt s a = (.abort, s) := by
  have hlabel : a.node.label = .abort := by
    rw [Node.label, h]
    rfl
  rw [attempt, BuildContext.add, runFrom_bind, runFrom_lift, hlabel]
  rfl

/-- An addition for a node with a kind ends as the topology decides. -/
theorem attempt_of_kind? {label : NodeLabel} {identity : String} (hlabel : a.node.label = .ok label)
    (hidentity : a.node.identity = .ok identity) :
    ctx.attempt s a =
      ((s.add ctx.config.profiling label identity a.primitive a.aliases).2.mapError
          fun e => .error (.topology e),
        (s.add ctx.config.profiling label identity a.primitive a.aliases).1) := by
  have hget : runFrom get s = (.ok s, s) := rfl
  rw [attempt, BuildContext.add, runFrom_bind, runFrom_lift, hlabel]
  simp only
  rw [runFrom_bind, runFrom_lift, hidentity]
  simp only
  rw [runFrom_bind, hget]
  rcases h : s.add ctx.config.profiling label identity a.primitive a.aliases with ⟨next, e | ⟨⟩⟩
  · simp only [h]
    rfl
  · simp only [h]
    rfl

variable {ctx : BuildContext} {s s' : BuildState} {a : Addition}

/-- An addition either leaves the build as it is or ends as the state decides. -/
theorem attempt_cases (ctx : BuildContext) (s : BuildState) (a : Addition) :
    a.node.kind? = none ∧ ctx.attempt s a = (.abort, s) ∨
      ∃ kind label identity, a.node.kind? = some kind ∧ ctx.attempt s a =
        ((s.add ctx.config.profiling label identity a.primitive a.aliases).2.mapError
            fun e => .error (.topology e),
          (s.add ctx.config.profiling label identity a.primitive a.aliases).1) := by
  cases hkind : a.node.kind? with
  | none => exact .inl ⟨rfl, attempt_of_kind?_eq_none ctx s a hkind⟩
  | some kind =>
      exact .inr ⟨kind, _, _, rfl,
        attempt_of_kind? ctx s a (Node.label_eq_ok_iff.2 ⟨kind, hkind, rfl⟩)
          (Node.identity_eq_ok_iff.2 ⟨kind, hkind, rfl⟩)⟩

/-- An addition that fails leaves the topology as it is. -/
theorem topology_of_attempt_eq_error {fault : Fault LoweringError}
    (h : ctx.attempt s a = (.error fault, s')) : s'.topology = s.topology := by
  rcases attempt_cases ctx s a with ⟨-, hattempt⟩ | ⟨kind, label, identity, -, hattempt⟩
  · rw [hattempt] at h
    rw [← (Prod.mk.inj h).2]
  · rw [hattempt] at h
    obtain ⟨hresult, rfl⟩ := Prod.mk.inj h
    by_cases hmem : a.primitive.id ∈ s.topology.ids
    · exact (s.add_of_mem _ label identity a.primitive a.aliases hmem).2
    · have hok := (s.add_of_notMem ctx.config.profiling label identity _ a.aliases hmem).1
      rw [hok] at hresult
      cases hresult

/-- An addition that succeeds writes one entry into the index: the position at which its primitive
stands. -/
theorem index_of_attempt_eq_ok (h : ctx.attempt s a = (.ok (), s')) :
    s'.topology.ids = s.topology.ids ++ [a.primitive.id] ∧
      s'.topology.index = s.topology.index.insert a.primitive.id s.topology.size := by
  rcases attempt_cases ctx s a with ⟨-, hattempt⟩ | ⟨kind, label, identity, -, hattempt⟩
  · rw [hattempt] at h
    cases (Prod.mk.inj h).1
  · rw [hattempt] at h
    obtain ⟨hresult, rfl⟩ := Prod.mk.inj h
    by_cases hmem : a.primitive.id ∈ s.topology.ids
    · rw [(s.add_of_mem _ label identity a.primitive a.aliases hmem).1] at hresult
      cases hresult
    · exact (s.add_of_notMem _ label identity a.primitive a.aliases hmem).2

/-- Every addition keeps a build consistent. -/
theorem consistent_attempt (h : s.Consistent) : (ctx.attempt s a).2.Consistent := by
  rcases attempt_cases ctx s a with ⟨-, hattempt⟩ | ⟨kind, label, identity, -, hattempt⟩
  · rw [hattempt]
    exact h
  · rw [hattempt]
    exact h.add _ label identity a.primitive a.aliases

/-- The identifiers behind an addition. -/
theorem ids_attempt (ctx : BuildContext) (s : BuildState) (a : Addition) :
    (ctx.attempt s a).2.topology.ids =
      if a.node.kind?.isSome = true ∧ a.primitive.id ∉ s.topology.ids then
        s.topology.ids ++ [a.primitive.id]
      else s.topology.ids := by
  rcases attempt_cases ctx s a with ⟨hkind, hattempt⟩ | ⟨kind, label, identity, hkind, hattempt⟩
  · simp [hattempt, hkind]
  · by_cases hmem : a.primitive.id ∈ s.topology.ids
    · simp [hattempt, hmem, (s.add_of_mem ctx.config.profiling label identity _ a.aliases hmem).2]
    · simp [hattempt, hkind, hmem,
        (s.add_of_notMem ctx.config.profiling label identity _ a.aliases hmem).2.1]

theorem stateAfter_append_singleton (ctx : BuildContext) (additions : List Addition)
    (a : Addition) :
    ctx.stateAfter (additions ++ [a]) = (ctx.attempt (ctx.stateAfter additions) a).2 := by
  rw [stateAfter, List.foldl_append]
  rfl

/-- A build is consistent whatever it was asked for. -/
theorem consistent_stateAfter (ctx : BuildContext) (additions : List Addition) :
    (ctx.stateAfter additions).Consistent := by
  induction additions using List.reverseRecOn with
  | nil => exact BuildState.consistent_empty
  | append_singleton additions a ih =>
      rw [stateAfter_append_singleton]
      exact consistent_attempt ih

/-- The topology holds the identifiers that were asked for, each at the place of its first request
for a node with a kind. -/
theorem ids_stateAfter (ctx : BuildContext) (additions : List Addition) :
    (ctx.stateAfter additions).topology.ids =
      ((additions.filter fun a => a.node.kind?.isSome).map fun a => a.primitive.id).eraseDups := by
  induction additions using List.reverseRecOn with
  | nil => rfl
  | append_singleton additions a ih =>
      rw [stateAfter_append_singleton, ids_attempt, ih, List.filter_append, List.map_append,
        List.eraseDups_append]
      cases hkind : a.node.kind?.isSome with
      | false => simp [hkind]
      | true =>
          by_cases hmem : a.primitive.id ∈
              (additions.filter fun a => a.node.kind?.isSome).map fun a => a.primitive.id
          · simp [hkind, List.mem_eraseDups, List.removeAll, hmem]
          · simp [hkind, List.mem_eraseDups, List.removeAll, hmem, List.eraseDups_cons]

end BuildContext

/-- A node with outputs becomes at least one primitive. -/
theorem Emits.ne_nil {ctx : BuildContext} {n : Node} {identity : String} {sources : List Source}
    {r : RuleName} {ps : List Primitive} (h : Emits ctx n identity sources r ps)
    (houtputs : n.outputs ≠ []) : ps ≠ [] := by
  cases h with
  | one => exact List.cons_ne_nil _ _
  | matMul => simp
  | split _ _ _ _ _ crops =>
      intro hnil
      rw [hnil] at crops
      exact houtputs (List.length_eq_zero_iff.1 crops.length_eq.symm)

namespace Lowerer

variable {l : Lowerer} {g : Graph} {options : BuildOptions} {lowered : Lowered}

/-- The primitives of a node keep a build consistent. -/
theorem consistent_of_adds {profiling : Bool} {label : NodeLabel} {identity : String}
    {s s' : BuildState} {ps : List Primitive} (h : s.Adds profiling label identity ps s')
    (hs : s.Consistent) : s'.Consistent := by
  induction h with
  | nil => exact hs
  | @cons s mid s' p ps first _ ih =>
      have hnext := hs.add profiling label identity p []
      rw [first] at hnext
      exact ih hnext

/-- Every node in front of a position that has outputs has an entry under its identity. -/
theorem contains_stateBefore (h : l.lower g options = .ok lowered)
    (hregistry : l.registry = .standard) {j : Nat} (hj : j ≤ g.size) {i : Nat} (hij : i < j)
    {n : Node} (hn : g.nodes[i]? = some n) (houtputs : n.outputs ≠ []) {identity : String}
    (hidentity : n.identity = .ok identity) :
    (l.stateBefore g options j).ids.contains identity = true := by
  induction j with
  | zero => omega
  | succ j ih =>
      obtain ⟨ps, @⟨label, other, r, sources, hlabel, hother, hruled, hsources, hemits, hadds⟩⟩ :=
        lowers_of_lower h hregistry (List.getElem?_eq_getElem hj)
      rw [NameMap.contains, hadds.ids_eq, IdentityMap.get?_noteAll]
      rcases Nat.lt_succ_iff_lt_or_eq.1 hij with hlt | rfl
      · -- what is known in front of a node is known behind it
        obtain ⟨id, hid⟩ := Option.isSome_iff_exists.1 (ih (Nat.le_of_succ_le hj) hlt)
        split
        · rw [hid, Option.isSome_or, Option.isSome_some, Bool.or_true]
        · split
          · rfl
          · rw [hid, Option.isSome_some]
      · obtain rfl : n = g.nodes[i] := Option.some.inj (hn.symm.trans (List.getElem?_eq_getElem hj))
        obtain rfl := Except.ok.inj (hidentity.symm.trans hother)
        have hne : ps.map Primitive.id ≠ [] := by simpa using hemits.ne_nil houtputs
        rw [if_pos rfl, List.getLast?_eq_some_getLast hne, Option.some_or, Option.isSome_some]

/-- Whatever a build is asked to add, and however the requests end, it stays consistent: the topology
holds every identifier once, and its index leads from each identifier to the position at which that
stands and knows no other; the identity map leads to primitives of the topology and knows all of them.
A successful request puts its primitive at the end and the position into the index, and a failed one
leaves the topology, with its index, as it was. A graph that is lowered leaves a consistent build with
an entry for every node that has outputs. -/
theorem builds_consistent :
    (∀ (ctx : BuildContext) (additions : List Addition),
      (ctx.stateAfter additions).topology.ids = ((additions.filter fun a =>
        a.node.kind?.isSome).map fun a => a.primitive.id).eraseDups ∧
      (ctx.stateAfter additions).topology.ids.Nodup ∧
      (∀ id i, (ctx.stateAfter additions).topology.index.get? id = some i ↔
        (ctx.stateAfter additions).topology.ids[i]? = some id) ∧
      (∀ id p, (ctx.stateAfter additions).topology.get? id = some p ↔
        p ∈ (ctx.stateAfter additions).topology.primitives ∧ p.id = id) ∧
      (ctx.stateAfter additions).Consistent ∧
      (∀ a s', ctx.attempt (ctx.stateAfter additions) a = (.ok (), s') →
        s'.topology.ids = (ctx.stateAfter additions).topology.ids ++ [a.primitive.id] ∧
        s'.topology.index = (ctx.stateAfter additions).topology.index.insert a.primitive.id
          (ctx.stateAfter additions).topology.size) ∧
      ∀ a fault s', ctx.attempt (ctx.stateAfter additions) a = (.error fault, s') →
        s'.topology = (ctx.stateAfter additions).topology) ∧
    ∀ (l : Lowerer) (g : Graph) (options : BuildOptions) (lowered : Lowered),
      l.registry = .standard → l.lower g options = .ok lowered →
      (⟨lowered.topology, lowered.ids, lowered.profile⟩ : BuildState).Consistent ∧
      ∀ n ∈ g.nodes, n.outputs ≠ [] →
        ∃ identity, n.identity = .ok identity ∧ lowered.ids.contains identity = true := by
  refine ⟨fun ctx additions => ?_, fun l g options lowered hregistry h => ?_⟩
  · refine ⟨ctx.ids_stateAfter additions, ?_, fun _ _ => Topology.position?_eq_some_iff,
      fun _ _ => Topology.get?_eq_some_iff, ctx.consistent_stateAfter additions,
      fun _ _ => BuildContext.index_of_attempt_eq_ok,
      fun _ _ _ => BuildContext.topology_of_attempt_eq_error⟩
    rw [ctx.ids_stateAfter additions]
    exact nodup_eraseDups _
  · obtain ⟨-, rfl⟩ := lowered_eq h
    constructor
    · apply stateBefore_induction (P := fun _ s => s.Consistent) h hregistry
        BuildState.consistent_empty _ (Nat.le_refl g.size)
      rintro i n ps - ⟨-, -, -, -, -, hadds⟩ hs
      exact consistent_of_adds hadds hs
    · intro n hn houtputs
      obtain ⟨i, hi⟩ := List.mem_iff_getElem?.1 hn
      obtain ⟨-, hidentity, -⟩ := loweredAt_of_lower h hregistry hi
      exact ⟨_, hidentity, contains_stateBefore h hregistry (Nat.le_refl g.size)
        (List.getElem?_eq_some_iff.1 hi).1 hi houtputs hidentity⟩

section Clashes

/-- A node of which only kind and name matter. -/
def bareNode (kind : OpKind) (name : String) : Node :=
  ⟨0, .single kind, name, [], [], [], .empty, none⟩

/-- Two primitives of a product, the second with the identity of the product as its alias, and one of
a result under an identifier that is taken. -/
def clashes : List Addition :=
  [⟨bareNode Opset.matMul "c", .new "matmul:c" (.activation .erf) [], []⟩,
    ⟨bareNode Opset.matMul "c", .new "c" (.activation .erf) [], ["matmul:c"]⟩,
    ⟨bareNode Opset.result "r", .new "c" (.activation .erf) [], []⟩]

/-- The refused primitive leaves an entry that leads to the one that was there before; and the
product of two matrices, once lowered, has an entry under its identity. -/
theorem builds_consistent_clashes :
    ((plain.context .product {}).stateAfter clashes).topology.ids = ["matmul:c", "c"] ∧
      ((plain.context .product {}).stateAfter clashes).topology.index.get? "c" = some 1 ∧
      ((plain.context .product {}).stateAfter clashes).ids.get? "result:r" = some "c" ∧
      ((plain.context .product {}).stateAfter clashes).Consistent ∧
      ∃ lowered, plain.lower .product {} = .ok lowered ∧
        lowered.ids.contains "matmul:c" = true := by
  obtain ⟨hbuild, hlower⟩ := builds_consistent
  obtain ⟨hids, -, hindex, -, hconsistent, -⟩ := hbuild (plain.context .product {}) clashes
  obtain ⟨lowered, h⟩ := exists_lowered_product
  obtain ⟨-, hknown⟩ := hlower plain .product {} lowered rfl h
  have hproduct : Graph.product.nodes[2].identity = .ok "matmul:c" := by decide +kernel
  obtain ⟨identity, hidentity, hcontains⟩ :=
    hknown Graph.product.nodes[2] (List.getElem_mem _) (by decide)
  obtain rfl := Except.ok.inj (hproduct.symm.trans hidentity)
  have hids' := hids.trans (by decide : _ = ["matmul:c", "c"])
  exact ⟨hids', (hindex "c" 1).2 (hids' ▸ rfl), by decide +kernel, hconsistent, lowered, h, hcontains⟩

end Clashes

end Lowerer

end TensorLowering
