import TensorLowering.Lowering.Lowerer
import TensorLowering.Proofs.Lowering.History

/-!
# Extended lowerers

How a node is lowered depends on the kernel for the name of its kind, and on the first level of its
type that has a rule. A kernel for another name, also for that of a more general level, and a rule
for a level behind one that has a rule, are never looked up for the node. So a lowerer that gets
them answers as before.

## Main statements

* `Lowerer.answersAlike_of_lowerNode_eq`: lowerers that lower each node of a graph alike answer alike.
* `Lowerer.answersAlike_of_extension`: which kernels and rules change nothing.
-/

namespace TensorLowering

/-- Every level of this kind stands behind a level that has a rule. -/
def Registry.Shadows (r : Registry) (type : OpType) (kind : OpKind) : Prop :=
  ∀ before after, type.levels = before ++ kind :: after → ∃ other ∈ before, r.contains other = true

/-- No node of the graph is, on its first level, of a kind with this name. -/
def Graph.LacksKind (g : Graph) (name : String) : Prop :=
  ∀ n ∈ g.nodes, ∀ kind, n.kind? = some kind → kind.name ≠ name

namespace Registry

variable {r r' : Registry} {kind : OpKind} {rule : Rule}

/-- Registering a rule leaves the rules of all other kinds. -/
theorem rule?_register (h : r.register kind rule = .ok r') {other : OpKind} (hother : other ≠ kind) :
    r'.rule? other = r.rule? other := by
  rw [register] at h
  split at h
  · cases h
  · cases h
    have hlast : [(kind, rule)].lookup other = none := by
      rw [List.lookup_cons, beq_eq_false_iff_ne.2 hother]
      rfl
    rw [rule?, List.lookup_append, hlast, Option.or_none]
    rfl

end Registry

/-- Loops that do the same with each item do the same. -/
theorem Build.forM_congr {α : Type} {f g : α → Build Unit} {xs : List α}
    (h : ∀ x ∈ xs, f x = g x) : xs.forM f = xs.forM g := by
  induction xs with
  | nil => rfl
  | cons x xs ih =>
      obtain ⟨hx, hxs⟩ := List.forall_mem_cons.1 h
      rw [List.forM, List.forM, hx, ih hxs]

namespace Lowerer

variable {l l' : Lowerer} {g : Graph}

/-- The first level with a rule is the same when a rule is registered behind it. -/
theorem findRule?_register {r : Registry} {kind : OpKind} {rule : Rule} {type : OpType}
    (h : l.registry.register kind rule = .ok r) (hshadows : l.registry.Shadows type kind) :
    { l with registry := r }.findRule? type = l.findRule? type := by
  have hlevels : ∀ levels : List OpKind, l.registry.Shadows ⟨levels⟩ kind →
      levels.findSome? (fun level => (r.rule? level).map (level, ·)) =
        levels.findSome? fun level => (l.registry.rule? level).map (level, ·) := by
    intro levels
    induction levels with
    | nil => exact fun _ => rfl
    | cons level levels ih =>
        intro hshadows
        have hne : level ≠ kind := by
          rintro rfl
          obtain ⟨other, hother, -⟩ := hshadows [] levels rfl
          exact absurd hother List.not_mem_nil
        rw [List.findSome?_cons, List.findSome?_cons, Registry.rule?_register h hne]
        cases hrule : l.registry.rule? level with
        | some _ => rfl
        | none =>
            apply ih
            intro before after hsplit
            -- the level in front has no rule, so it is not the one that shadows
            obtain ⟨other, hother, hcontains⟩ :=
              hshadows (level :: before) after (congrArg (level :: ·) hsplit)
            rcases List.mem_cons.1 hother with rfl | hbefore
            · rw [Registry.contains, hrule] at hcontains
              cases hcontains
            · exact ⟨other, hbefore, hcontains⟩
  exact hlevels type.levels hshadows

/-- Lowering a node depends on the kernel for the name of its kind, and on the rule for its type. -/
theorem lowerNode_congr {n : Node} (ctx : BuildContext)
    (hkernel : ∀ kind, n.kind? = some kind → l'.overlay.get? kind.name = l.overlay.get? kind.name)
    (hrule : l'.findRule? n.type = l.findRule? n.type) : l'.lowerNode ctx n = l.lowerNode ctx n := by
  cases hkind : n.kind? with
  | none =>
      have hname : n.kindName = .abort := by
        rw [Node.kindName, hkind]
        rfl
      rw [lowerNode, lowerNode, hname]
      rfl
  | some kind =>
      have hname : n.kindName = .ok kind.name := by
        rw [Node.kindName, hkind]
        rfl
      rw [lowerNode, lowerNode, hname, hrule]
      have hpure (f : String → Build Unit) : (liftM (.ok kind.name : Outcome LoweringError String) >>= f) =
          f kind.name := rfl
      rw [hpure, hpure, hkernel kind hkind]

/-- The lowerers answer alike about a graph: to every request to lower it, and to every query. -/
structure AnswersAlike (l l' : Lowerer) (g : Graph) : Prop where
  lower_eq : ∀ options, l'.lower g options = l.lower g options
  probe_eq : ∀ position, l'.probe g position = l.probe g position
  support_eq : l'.support g = l.support g

/-- Lowerers that lower each node of a graph alike answer alike about the graph. -/
theorem answersAlike_of_lowerNode_eq (hconfig : l'.config = l.config) (hdevice : l'.device = l.device)
    (h : ∀ n ∈ g.nodes, ∀ ctx, l'.lowerNode ctx n = l.lowerNode ctx n) : l.AnswersAlike l' g := by
  have hprobe (position : Nat) : l'.probe g position = l.probe g position := by
    rw [probe, probe]
    cases hn : g.node? position with
    | none => rfl
    | some n =>
        have hctx : l'.queryContext g n = l.queryContext g n := by
          rw [queryContext, queryContext, hconfig, hdevice]
        change (StateT.run (ExceptT.run (l'.lowerNode (l'.queryContext g n) n)) _).1 = _
        rw [hctx, h n (List.mem_of_getElem? hn)]
        rfl
  constructor
  · intro options
    have hctx : l'.context g options = l.context g options := by
      rw [context, context, regime, regime, hconfig, hdevice]
    have hnodes : g.nodes.forM (l'.lowerNode (l.context g options)) =
        g.nodes.forM (l.lowerNode (l.context g options)) :=
      Build.forM_congr fun n hn => h n hn _
    rw [lower, lower, hctx, hnodes]
  · exact hprobe
  · have hsupported : l'.isSupported g = l.isSupported g := by
      funext position
      rw [isSupported, isSupported, hprobe]
    rw [support, support, hsupported]

/-- Where a kernel for a type and a rule for a kind change nothing. A kernel changes nothing for a node
whose kind has another name, whatever its more general levels are called, so nothing about a graph
all of whose nodes are such. Nor does a rule change anything about a graph on whose types the kind
is absent or stands behind a level that has a rule. -/
theorem answersAlike_of_extension (l : Lowerer) (g : Graph) :
    (∀ k source replaces o, l.overlay.insert k source replaces = .ok o →
      (∀ n ctx, (∀ kind, n.kind? = some kind → kind.name ≠ k.type) →
        { l with overlay := o }.lowerNode ctx n = l.lowerNode ctx n) ∧
      (g.LacksKind k.type → l.AnswersAlike { l with overlay := o } g)) ∧
    ∀ kind rule r, l.registry.register kind rule = .ok r →
      (∀ n ∈ g.nodes, l.registry.Shadows n.type kind) → l.AnswersAlike { l with registry := r } g := by
  constructor
  · intro k source replaces o hinsert
    have hnode : ∀ n ctx, (∀ kind, n.kind? = some kind → kind.name ≠ k.type) →
        { l with overlay := o }.lowerNode ctx n = l.lowerNode ctx n := by
      intro n ctx hother
      refine lowerNode_congr ctx (fun kind hkind => ?_) rfl
      rw [Overlay.get?_insert hinsert, if_neg (hother kind hkind)]
    refine ⟨hnode, fun hlacks => ?_⟩
    exact answersAlike_of_lowerNode_eq rfl rfl fun n hn ctx => hnode n ctx (hlacks n hn)
  · intro kind rule r hregister hshadows
    refine answersAlike_of_lowerNode_eq rfl rfl fun n hn ctx => ?_
    exact lowerNode_congr ctx (fun _ _ => rfl) (findRule?_register hregister (hshadows n hn))

section Layered

/-- What the error function is besides itself. -/
def unary : OpKind := ⟨"Unary", "util"⟩

/-- The error function of an input, with its more general level. -/
def layered : Graph :=
  ⟨[⟨0, .single Opset.parameter, "x", [], [], [.ofSizes .f32 [2]], .empty, none⟩,
    ⟨1, ⟨[Opset.erf, unary]⟩, "y", [⟨0, 0⟩], [.ofSizes .f32 [2]], [.ofSizes .f32 [2]], .empty, none⟩]⟩

/-- A kernel for the more general level. -/
def unaryKernel : KernelDescriptor := ⟨"Unary", "unary", "", [], [], [], "", [], []⟩

/-- A kernel and a rule for the more general level leave the error function as it is; the same kernel
for the level itself takes its place. -/
theorem answersAlike_layered :
    (∃ o, plain.overlay.insert unaryKernel "inline" false = .ok o ∧
      { plain with overlay := o }.lower layered {} = plain.lower layered {}) ∧
    (∃ r, plain.registry.register unary Rule.erf = .ok r ∧
      { plain with registry := r }.probe layered 1 = plain.probe layered 1) ∧
    ∃ o, plain.overlay.insert { unaryKernel with type := "Erf" } "inline" false = .ok o ∧
      { plain with overlay := o }.lower layered {} ≠ plain.lower layered {} := by
  obtain ⟨hkernel, hrule⟩ := answersAlike_of_extension plain layered
  have hlacks : layered.LacksKind "Unary" := by
    have hnames : ∀ n ∈ layered.nodes, n.kind?.all (·.name ≠ "Unary") = true := by decide
    intro n hn kind hkind
    have hname := hnames n hn
    rw [hkind] at hname
    exact of_decide_eq_true hname
  have hshadows : ∀ n ∈ layered.nodes, plain.registry.Shadows n.type unary := by
    intro n hn before after hlevels
    rcases before with _ | ⟨first, before⟩
    · have hfirst : ∀ n ∈ layered.nodes, n.kind? ≠ some unary := by decide
      exact absurd (congrArg List.head? hlevels) (hfirst n hn)
    · have hknown : ∀ n ∈ layered.nodes, ∀ kind ∈ n.kind?, plain.registry.contains kind = true := by
        decide
      exact ⟨first, List.mem_cons_self, hknown n hn first (congrArg List.head? hlevels)⟩
  refine ⟨⟨_, rfl, ?_⟩, ⟨_, rfl, ?_⟩, ⟨_, rfl, ?_⟩⟩
  · exact ((hkernel unaryKernel "inline" false _ rfl).2 hlacks).lower_eq {}
  · exact (hrule unary Rule.erf _ rfl hshadows).probe_eq 1
  · decide +kernel

end Layered

end Lowerer

end TensorLowering
