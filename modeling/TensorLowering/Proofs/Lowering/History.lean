import TensorLowering.Proofs.Graph.Assembly
import TensorLowering.Proofs.Lowering.Resolution
import TensorLowering.Proofs.Lowering.Rules

/-!
# Histories of builds

A graph that is lowered leads from the empty state through one state in front of every node. What
holds at the start and is kept by every node that is lowered holds of what lowering gives.

## Main statements

* `Lowerer.lowers_of_lower`: each node is lowered from the state in front of it.
* `Lowerer.stateBefore_induction`: what every node keeps holds in front of every node.
-/

namespace TensorLowering

namespace Lowerer

open Build

variable {l : Lowerer} {g : Graph} {options : BuildOptions} {lowered : Lowered}

/-- The state of a build in front of the node at a position. -/
def stateBefore (l : Lowerer) (g : Graph) (options : BuildOptions) (i : Nat) : BuildState :=
  (runFrom ((g.nodes.take i).forM (l.lowerNode (l.context g options))) .empty).2

/-- The primitives that are added while the node at a position is lowered. -/
def emitted (l : Lowerer) (g : Graph) (options : BuildOptions) (i : Nat) : List Primitive :=
  (l.stateBefore g options (i + 1)).topology.primitives.drop
    (l.stateBefore g options i).topology.size

@[simp] theorem stateBefore_zero (l : Lowerer) (g : Graph) (options : BuildOptions) :
    l.stateBefore g options 0 = .empty := by
  rw [stateBefore, List.take_zero]
  rfl

/-- A graph is lowered when its nodes go through in order and every input names a primitive. -/
theorem lower_eq_ok_iff :
    l.lower g options = .ok lowered ↔ ∃ s,
      Ends (g.nodes.forM (l.lowerNode (l.context g options))) .empty () s ∧
      s.topology.validate = .ok () ∧
      lowered = ⟨s.topology, s.ids, s.profile, l.regime g options⟩ := by
  simp only [Ends]
  rcases hrun : runFrom (g.nodes.forM (l.lowerNode (l.context g options))) .empty with
    ⟨fault | ⟨⟩, s⟩
  · have hlower : l.lower g options = .error fault := by
      rw [runFrom] at hrun
      simp only [lower, hrun]
    simp [hlower]
  · cases hvalid : s.topology.validate with
    | error e =>
        have hlower : l.lower g options = .fail (.topology e) := by
          rw [runFrom] at hrun
          simp only [lower, hrun, hvalid]
        rw [hlower]
        constructor
        · intro h
          exact absurd h Outcome.fail_ne_ok
        · rintro ⟨_, hs, hvalid', -⟩
          obtain ⟨-, rfl⟩ := Prod.mk.inj hs
          rw [hvalid] at hvalid'
          cases hvalid'
    | ok =>
        have hlower : l.lower g options =
            .ok ⟨s.topology, s.ids, s.profile, l.regime g options⟩ := by
          rw [runFrom] at hrun
          simp only [lower, hrun, hvalid]
          rfl
        rw [hlower]
        constructor
        · intro h
          exact ⟨s, rfl, hvalid, (Except.ok.inj h).symm⟩
        · rintro ⟨_, hs, -, rfl⟩
          obtain ⟨-, rfl⟩ := Prod.mk.inj hs
          rfl

/-- The nodes in front of a position go through. -/
theorem ends_take (h : l.lower g options = .ok lowered) (i : Nat) :
    Ends ((g.nodes.take i).forM (l.lowerNode (l.context g options))) .empty ()
      (l.stateBefore g options i) := by
  obtain ⟨s, hrun, -⟩ := lower_eq_ok_iff.1 h
  rw [← List.take_append_drop i g.nodes, List.forM_eq_forM, List.forM_append, ends_bind_iff] at hrun
  obtain ⟨⟨⟩, mid, hmid, -⟩ := hrun
  have hstate : l.stateBefore g options i = mid := by
    rw [stateBefore, List.forM_eq_forM, hmid]
  rw [hstate]
  exact hmid

/-- Lowering a graph lowers each of its nodes from the state in front of it. -/
theorem lowers_of_lower (h : l.lower g options = .ok lowered) (hregistry : l.registry = .standard)
    {i : Nat} {n : Node} (hn : g.nodes[i]? = some n) :
    ∃ ps, l.Lowers (l.context g options) n (l.stateBefore g options i) ps
      (l.stateBefore g options (i + 1)) := by
  obtain ⟨mid, hmid, hends⟩ := (ends_forM_take_succ_iff hn).1 (ends_take h (i + 1))
  obtain ⟨-, rfl⟩ := hmid.unique (ends_take h i)
  rw [← ends_lowerNode_iff hregistry]
  exact hends

/-- What lowering gives is the state behind the last node. -/
theorem lowered_eq (h : l.lower g options = .ok lowered) :
    (l.stateBefore g options g.size).topology.validate = .ok () ∧
      lowered = ⟨(l.stateBefore g options g.size).topology, (l.stateBefore g options g.size).ids,
        (l.stateBefore g options g.size).profile, l.regime g options⟩ := by
  obtain ⟨s, hrun, hvalid, rfl⟩ := lower_eq_ok_iff.1 h
  have hall := ends_take h g.size
  rw [Graph.size, List.take_length] at hall
  obtain ⟨-, rfl⟩ := hrun.unique hall
  exact ⟨hvalid, rfl⟩

/-- What holds at the start and is kept by every node holds in front of every node. -/
theorem stateBefore_induction (h : l.lower g options = .ok lowered)
    (hregistry : l.registry = .standard) {P : Nat → BuildState → Prop} (start : P 0 .empty)
    (step : ∀ i n ps, g.nodes[i]? = some n →
      l.Lowers (l.context g options) n (l.stateBefore g options i) ps
        (l.stateBefore g options (i + 1)) →
      P i (l.stateBefore g options i) → P (i + 1) (l.stateBefore g options (i + 1)))
    {i : Nat} (hi : i ≤ g.size) : P i (l.stateBefore g options i) := by
  induction i with
  | zero =>
      rw [stateBefore_zero]
      exact start
  | succ i ih =>
      have hn : g.nodes[i]? = some g.nodes[i] := List.getElem?_eq_getElem hi
      obtain ⟨ps, hps⟩ := lowers_of_lower h hregistry hn
      exact step i _ ps hn hps (ih (Nat.le_of_succ_le hi))

/-- What lowering a graph did at the node at a position. -/
inductive LoweredAt (l : Lowerer) (g : Graph) (options : BuildOptions) (i : Nat) (n : Node) :
    Prop where
  | intro {label : NodeLabel} {identity : String} {r : RuleName} {sources : List Source}
      {ps : List Primitive} (labelled : n.label = .ok label)
      (identified : n.identity = .ok identity) (ruled : l.ruleName? n = some r)
      (resolved : (l.context g options).inputs (l.stateBefore g options i).ids n = .ok sources)
      (emits : Emits (l.context g options) n identity sources r ps)
      (emitted_eq : l.emitted g options i = ps.map (Primitive.labelled label identity))
      (primitives_eq : (l.stateBefore g options (i + 1)).topology.primitives =
        (l.stateBefore g options i).topology.primitives ++ l.emitted g options i)
      (ids_eq : (l.stateBefore g options (i + 1)).ids =
        IdentityMap.noteAll identity (l.stateBefore g options i).ids
          ((l.emitted g options i).map Primitive.id))

theorem loweredAt_of_lower (h : l.lower g options = .ok lowered)
    (hregistry : l.registry = .standard) {i : Nat} {n : Node} (hn : g.nodes[i]? = some n) :
    l.LoweredAt g options i n := by
  obtain ⟨ps, @⟨label, identity, r, sources, hlabel, hidentity, hruled, hsources, hemits, hadds⟩⟩ :=
    lowers_of_lower h hregistry hn
  have hemitted : l.emitted g options i = ps.map (Primitive.labelled label identity) := by
    rw [emitted, hadds.primitives_eq, Topology.size, List.drop_left]
  refine ⟨hlabel, hidentity, hruled, hsources, hemits, hemitted, ?_, ?_⟩
  · rw [hemitted, hadds.primitives_eq]
  · rw [hemitted, hadds.ids_eq, List.map_map]
    rfl

/-- What was emitted for a node with an identity. -/
theorem exists_emits (h : l.lower g options = .ok lowered) (hregistry : l.registry = .standard)
    {i : Nat} {n : Node} (hn : g.nodes[i]? = some n) {identity : String}
    (hidentity : n.identity = .ok identity) :
    ∃ label r sources ps, n.label = .ok label ∧ l.ruleName? n = some r ∧
      Emits (l.context g options) n identity sources r ps ∧
      l.emitted g options i = ps.map (Primitive.labelled label identity) := by
  obtain @⟨label, own, r, sources, ps, hlabel, hown, hruled, -, hemits, hemitted, -, -⟩ :=
    loweredAt_of_lower h hregistry hn
  obtain rfl := Except.ok.inj (hidentity.symm.trans hown)
  exact ⟨label, r, sources, ps, hlabel, hruled, hemits, hemitted⟩

/-- What is emitted for a node is still there behind every later node. -/
theorem emitted_subset (h : l.lower g options = .ok lowered) (hregistry : l.registry = .standard)
    {i j : Nat} (hij : i < j) (hj : j ≤ g.size) :
    l.emitted g options i ⊆ (l.stateBefore g options j).topology.primitives := by
  induction j with
  | zero => omega
  | succ j ih =>
      have hn : g.nodes[j]? = some g.nodes[j] := List.getElem?_eq_getElem hj
      obtain ⟨-, -, -, -, -, -, hprimitives, -⟩ := loweredAt_of_lower h hregistry hn
      rw [hprimitives]
      rcases Nat.lt_or_ge i j with hlt | hge
      · exact List.Subset.trans (ih hlt (by omega)) (List.subset_append_left _ _)
      · obtain rfl : i = j := by omega
        exact List.subset_append_right _ _

/-- Primitives emitted for different nodes have different identifiers. -/
theorem emitted_id_ne (h : l.lower g options = .ok lowered) (hregistry : l.registry = .standard)
    {i j : Nat} (hij : i < j) (hj : j < g.size) {p q : Primitive} (hp : p ∈ l.emitted g options i)
    (hq : q ∈ l.emitted g options j) : p.id ≠ q.id := by
  have hn : g.nodes[j]? = some g.nodes[j] := List.getElem?_eq_getElem hj
  obtain ⟨-, -, -, -, -, -, hprimitives, -⟩ := loweredAt_of_lower h hregistry hn
  have hdistinct := (l.stateBefore g options (j + 1)).topology.distinct
  rw [hprimitives, List.map_append] at hdistinct
  have hbefore := emitted_subset h hregistry hij (Nat.le_of_lt hj) hp
  exact (List.nodup_append.1 hdistinct).2.2 _ (List.mem_map_of_mem hbefore) _
    (List.mem_map_of_mem hq)

/-- A primitive with the identifier of an emitted one was emitted for the same node. -/
theorem eq_of_emitted_id_eq (h : l.lower g options = .ok lowered)
    (hregistry : l.registry = .standard) {i j : Nat} (hi : i < g.size) (hj : j < g.size)
    {p q : Primitive} (hp : p ∈ l.emitted g options i) (hq : q ∈ l.emitted g options j)
    (hid : p.id = q.id) : i = j := by
  rcases Nat.lt_trichotomy i j with hlt | heq | hgt
  · exact absurd hid (emitted_id_ne h hregistry hlt hj hp hq)
  · exact heq
  · exact absurd hid.symm (emitted_id_ne h hregistry hgt hi hq hp)

/-- A processor with the standard rules, the default configuration and no overlay. -/
def plain : Lowerer := ⟨.cpu "cpu", {}, .standard, .empty⟩

theorem exists_lowered_product : ∃ lowered, plain.lower .product {} = .ok lowered := by
  have hlowered : ((plain.lower .product {}).toOption.any fun _ => true) = true := by decide +kernel
  obtain ⟨lowered, h, -⟩ := Outcome.exists_of_any_toOption hlowered
  exact ⟨lowered, h⟩

end Lowerer

end TensorLowering
