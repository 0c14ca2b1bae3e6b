import Mathlib.Data.List.Induction
import TensorLowering.Lowering.Rule.Basic
import TensorLowering.Proofs.Outcome
import TensorLowering.Proofs.Topology.Index

/-!
# Builds that go through

What a part of a build did when it ended without a fault: `Build.Ends` opens it step by step, and
`BuildState.Adds` says how the primitives of a node changed the state.

## Implementation notes

An insertion into the identity map is written `IdentityMap.note`. Adding a primitive is one note,
and adding the primitives of a node is a sequence of notes under the identity of the node, whose
effect on a look-up is `IdentityMap.get?_noteAll`.
-/

namespace TensorLowering

namespace IdentityMap

/-- Makes a primitive the value of an identity, and of its own identifier. -/
def note (identity : String) (ids : IdentityMap) (id : String) : IdentityMap :=
  if identity ≠ id then (ids.insert identity id).insert id id else ids.insert identity id

/-- Notes primitives in order. -/
def noteAll (identity : String) (ids : IdentityMap) (noted : List String) : IdentityMap :=
  noted.foldl (note identity) ids

theorem get?_note (identity : String) (ids : IdentityMap) (id key : String) :
    (note identity ids id).get? key =
      if key = identity ∨ key = id then some id else ids.get? key := by
  by_cases hid : identity = id
  · simp [note, hid, NameMap.get?_insert]
  · by_cases hkey : key = id <;> by_cases hidentity : key = identity <;>
      simp [note, hid, hkey, hidentity, NameMap.get?_insert]

/-- After notes under one identity, the identity leads to the last primitive noted, every other
primitive noted leads to itself, and nothing else has changed. -/
theorem get?_noteAll (identity : String) (ids : IdentityMap) (noted : List String) (key : String) :
    (noteAll identity ids noted).get? key =
      if key = identity then noted.getLast?.or (ids.get? key)
      else if key ∈ noted then some key else ids.get? key := by
  induction noted using List.reverseRecOn with
  | nil => simp [noteAll]
  | append_singleton noted id ih =>
      have hsnoc : noteAll identity ids (noted ++ [id]) =
          note identity (noteAll identity ids noted) id := by
        simp [noteAll]
      rw [hsnoc, get?_note, ih]
      by_cases hidentity : key = identity
      · simp [hidentity]
      · by_cases hkey : key = id <;> simp [hidentity, hkey]

end IdentityMap

namespace Build

variable {α β : Type} {s s' : BuildState}

/-- What a part of a build ends with, and the state that it leaves behind. -/
def runFrom (x : Build α) (s : BuildState) : Outcome LoweringError α × BuildState :=
  StateT.run (ExceptT.run x) s

/-- A part of a build goes through: it ends with a value. -/
def Ends (x : Build α) (s : BuildState) (a : α) (s' : BuildState) : Prop :=
  runFrom x s = (.ok a, s')

theorem runFrom_bind (x : Build α) (f : α → Build β) (s : BuildState) :
    runFrom (x >>= f) s =
      match runFrom x s with
      | (.ok a, mid) => runFrom (f a) mid
      | (.error fault, mid) => (.error fault, mid) := by
  simp only [runFrom]
  rw [ExceptT.run_bind, StateT.run_bind]
  rcases StateT.run (ExceptT.run x) s with ⟨_ | _, mid⟩ <;> rfl

/-- A computation without state leaves the state as it is. -/
theorem runFrom_lift (x : Outcome LoweringError α) (s : BuildState) :
    runFrom (liftM x) s = (x, s) := by
  cases x <;> rfl

/-- Two steps in sequence go through exactly when the first does and the second does from there. -/
theorem ends_bind_iff {x : Build α} {f : α → Build β} {b : β} :
    Ends (x >>= f) s b s' ↔ ∃ a mid, Ends x s a mid ∧ Ends (f a) mid b s' := by
  simp only [Ends]
  rw [runFrom_bind]
  rcases runFrom x s with ⟨fault | a, mid⟩
  · simp
  · simp

theorem ends_pure_iff {a b : α} : Ends (pure a) s b s' ↔ a = b ∧ s = s' := by
  have hrun : runFrom (pure a) s = (.ok a, s) := rfl
  simp [Ends, hrun]

/-- A computation without state goes through when it ends with a value. -/
theorem ends_lift_iff {x : Outcome LoweringError α} {a : α} :
    Ends (liftM x) s a s' ↔ x = .ok a ∧ s = s' := by
  simp [Ends, runFrom_lift]

theorem ends_get_iff {a : BuildState} : Ends get s a s' ↔ s = a ∧ s = s' := by
  have hrun : runFrom get s = (.ok s, s) := rfl
  simp [Ends, hrun]

theorem ends_set_iff {next : BuildState} {a : Unit} : Ends (set next) s a s' ↔ next = s' := by
  have hrun : runFrom (set next : Build Unit) s = (.ok (), next) := rfl
  simp [Ends, hrun]

theorem not_ends_throw {fault : Fault LoweringError} {a : α} : ¬ Ends (throw fault) s a s' := by
  have hrun : runFrom (throw fault : Build α) s = (.error fault, s) := rfl
  simp [Ends, hrun]

/-- A loop goes through one item more exactly when it goes through the items before, and then the
item does. -/
theorem ends_forM_take_succ_iff {f : α → Build Unit} {xs : List α} {i : Nat} {x : α}
    (hx : xs[i]? = some x) : Ends ((xs.take (i + 1)).forM f) s () s' ↔
      ∃ mid, Ends ((xs.take i).forM f) s () mid ∧ Ends (f x) mid () s' := by
  rw [List.take_add_one, hx, List.forM_eq_forM, List.forM_append, ends_bind_iff]
  simp only [Option.toList_some, List.forM_cons, List.forM_nil, ends_bind_iff, ends_pure_iff]
  constructor
  · rintro ⟨⟨⟩, mid, hbefore, ⟨⟩, last, hlast, -, rfl⟩
    exact ⟨mid, hbefore, hlast⟩
  · rintro ⟨mid, hbefore, hlast⟩
    exact ⟨(), mid, hbefore, (), s', hlast, trivial, rfl⟩

/-- A part of a build goes through in at most one way. -/
theorem Ends.unique {x : Build α} {a b : α} {s₁ s₂ : BuildState} (h₁ : Ends x s a s₁)
    (h₂ : Ends x s b s₂) : a = b ∧ s₁ = s₂ := by
  simpa using h₁.symm.trans h₂

end Build

/-- The primitive with the origin that a build gives it. -/
def Primitive.labelled (label : NodeLabel) (identity : String) (p : Primitive) : Primitive :=
  { p with
    originName := label.name
    originType :=
      if identity ≠ p.id ∧ p.id ≠ identity ++ outputSuffix 0 then p.payload.typeName
      else label.kind.name }

namespace Primitive

@[simp] theorem new_id (id : String) (payload : Payload) (inputs : List Source) :
    (Primitive.new id payload inputs).id = id := rfl
@[simp] theorem new_payload (id : String) (payload : Payload) (inputs : List Source) :
    (Primitive.new id payload inputs).payload = payload := rfl
@[simp] theorem new_inputs (id : String) (payload : Payload) (inputs : List Source) :
    (Primitive.new id payload inputs).inputs = inputs := rfl

variable (label : NodeLabel) (identity : String) (p : Primitive)

@[simp] theorem labelled_id : (p.labelled label identity).id = p.id := rfl
@[simp] theorem labelled_payload : (p.labelled label identity).payload = p.payload := rfl
@[simp] theorem labelled_inputs : (p.labelled label identity).inputs = p.inputs := rfl
@[simp] theorem labelled_originName : (p.labelled label identity).originName = label.name := rfl

end Primitive

namespace BuildState

variable {profiling : Bool} {label : NodeLabel} {identity : String} {s s' : BuildState}

/-- A primitive is added exactly when its identifier is new; then it stands at the end with its
origin, and is noted. -/
theorem add_eq_ok_iff {p : Primitive} :
    s.add profiling label identity p [] = (s', .ok ()) ↔
      p.id ∉ s.topology.ids ∧
      s'.topology.primitives = s.topology.primitives ++ [p.labelled label identity] ∧
      s'.ids = IdentityMap.note identity s.ids p.id ∧
      s'.profile = if profiling && !p.payload.isData then
        s.profile.record p.id (p.labelled label identity).originType label.name else s.profile := by
  have hadd : s.topology.add (p.labelled label identity) = .ok s'.topology ↔ _ :=
    Topology.add_eq_ok_iff
  rw [Primitive.labelled_id] at hadd
  rw [← and_assoc, ← hadd]
  rcases s' with ⟨topology, ids, profile⟩
  simp only [add, Primitive.labelled, IdentityMap.note] at hadd ⊢
  cases s.topology.add _ with
  | error e => simp
  | ok next =>
      simp only [Prod.mk.injEq, BuildState.mk.injEq, Except.ok.injEq, and_true, List.foldl_nil]
      exact and_congr_right fun _ => and_congr eq_comm eq_comm

/-- From one state to another the primitives of a node were added in order. -/
inductive Adds (profiling : Bool) (label : NodeLabel) (identity : String) :
    BuildState → List Primitive → BuildState → Prop where
  | nil (s : BuildState) : Adds profiling label identity s [] s
  | cons {s mid s' : BuildState} {p : Primitive} {ps : List Primitive}
      (first : s.add profiling label identity p [] = (mid, .ok ()))
      (rest : Adds profiling label identity mid ps s') :
      Adds profiling label identity s (p :: ps) s'

namespace Adds

variable {ps : List Primitive}

/-- The primitives stand at the end, with their origin. -/
theorem primitives_eq (h : s.Adds profiling label identity ps s') :
    s'.topology.primitives =
      s.topology.primitives ++ ps.map (Primitive.labelled label identity) := by
  induction h with
  | nil => simp
  | cons first _ ih =>
      obtain ⟨_, hmid, _⟩ := add_eq_ok_iff.1 first
      rw [ih, hmid, List.map_cons, List.append_assoc, List.singleton_append]

/-- The primitives of a node have distinct identifiers. -/
theorem nodup_ids (h : s.Adds profiling label identity ps s') : (ps.map Primitive.id).Nodup := by
  have hall := s'.topology.distinct
  rw [h.primitives_eq, List.map_append, List.map_map] at hall
  exact (List.nodup_append.1 hall).2.1

/-- The primitives are noted under the identity of the node. -/
theorem ids_eq (h : s.Adds profiling label identity ps s') :
    s'.ids = IdentityMap.noteAll identity s.ids (ps.map Primitive.id) := by
  induction h with
  | nil => rfl
  | cons first _ ih =>
      obtain ⟨_, _, hids, _⟩ := add_eq_ok_iff.1 first
      rw [ih, hids]
      rfl

/-- Primitives with new and distinct identifiers can be added. -/
theorem exists_of_fresh (hnew : ∀ p ∈ ps, p.id ∉ s.topology.ids)
    (hdistinct : (ps.map Primitive.id).Nodup) :
    ∃ s', s.Adds profiling label identity ps s' := by
  induction ps generalizing s with
  | nil => exact ⟨s, .nil s⟩
  | cons p ps ih =>
      rw [List.map_cons, List.nodup_cons] at hdistinct
      obtain ⟨hp, hps⟩ := List.forall_mem_cons.1 hnew
      obtain ⟨topology, -, hprimitives, -⟩ := Topology.exists_add
        (t := s.topology) (p := p.labelled label identity) hp
      have hfirst : s.add profiling label identity p [] = (⟨topology,
          IdentityMap.note identity s.ids p.id, if profiling && !p.payload.isData then
            s.profile.record p.id (p.labelled label identity).originType label.name
            else s.profile⟩, .ok ()) :=
        add_eq_ok_iff.2 ⟨hp, hprimitives, rfl, rfl⟩
      have hfresh : ∀ q ∈ ps, q.id ∉ topology.ids := by
        intro q hq hmem
        rw [Topology.ids, hprimitives, List.map_append, List.mem_append] at hmem
        rcases hmem with hold | hfirst
        · exact hps q hq hold
        · apply hdistinct.1
          have : q.id = p.id := by simpa using hfirst
          exact this ▸ List.mem_map_of_mem hq
      obtain ⟨s', hrest⟩ := ih (s := ⟨topology, _, _⟩) hfresh hdistinct.2
      exact ⟨s', .cons hfirst hrest⟩

end Adds

end BuildState

namespace Node

/-- The identity of a node is the name of its kind in lowercase, a colon, and its own name. -/
theorem identity_eq_ok_iff {n : Node} {identity : String} :
    n.identity = .ok identity ↔
      ∃ kind, n.kind? = some kind ∧ identity = Text.lowercase kind.name ++ ":" ++ n.name := by
  simp only [Node.identity, Outcome.ofOption_eq_ok_iff, identity?, layerType?, Option.map_map,
    Option.map_eq_some_iff, Function.comp_apply, eq_comm (a := identity)]

theorem label_eq_ok_iff {n : Node} {label : NodeLabel} :
    n.label = .ok label ↔ ∃ kind, n.kind? = some kind ∧ label = ⟨n.name, kind⟩ := by
  simp only [Node.label, Outcome.bind_eq_ok_iff, Outcome.ofOption_eq_ok_iff, Outcome.pure_eq_ok_iff,
    eq_comm (a := label)]

theorem kindName_eq_ok_iff {n : Node} {name : String} :
    n.kindName = .ok name ↔ ∃ kind, n.kind? = some kind ∧ name = kind.name := by
  simp only [kindName, Outcome.bind_eq_ok_iff, Outcome.ofOption_eq_ok_iff, Outcome.pure_eq_ok_iff,
    eq_comm (a := name)]

end Node

namespace Build

open BuildState

variable {ctx : BuildContext} {n : Node} {label : NodeLabel} {identity : String} {s s' : BuildState}

theorem ends_add_iff (hlabel : n.label = .ok label) (hidentity : n.identity = .ok identity)
    {p : Primitive} {a : Unit} :
    Ends (ctx.add n p []) s a s' ↔
      s.add ctx.config.profiling label identity p [] = (s', .ok ()) := by
  simp only [BuildContext.add, ends_bind_iff, ends_lift_iff, ends_get_iff, ends_set_iff, hlabel,
    hidentity, Except.ok.injEq]
  constructor
  · rintro ⟨_, _, ⟨rfl, rfl⟩, _, _, ⟨rfl, rfl⟩, _, _, ⟨rfl, rfl⟩, h⟩
    rcases hadd : s.add ctx.config.profiling label identity p [] with ⟨next, e | ⟨⟩⟩
    · simp [hadd, not_ends_throw] at h
    · simpa [hadd, ends_bind_iff, ends_set_iff, ends_pure_iff] using h
  · intro h
    refine ⟨_, _, ⟨rfl, rfl⟩, _, _, ⟨rfl, rfl⟩, _, _, ⟨rfl, rfl⟩, ?_⟩
    simp [h, ends_pure_iff]

/-- An emission goes through when none of its steps is a fault and its primitives can be added. -/
theorem ends_forM_add_iff (hlabel : n.label = .ok label) (hidentity : n.identity = .ok identity)
    {steps : Emission} {a : Unit} :
    Ends (steps.forM fun step => do ctx.add n (← step) []) s a s' ↔
      ∃ ps, steps = ps.map .ok ∧ s.Adds ctx.config.profiling label identity ps s' := by
  induction steps generalizing s with
  | nil =>
      rw [List.forM, ends_pure_iff]
      constructor
      · rintro ⟨-, rfl⟩
        exact ⟨[], rfl, .nil s⟩
      · rintro ⟨ps, hps, h⟩
        cases ps with
        | nil => cases h; exact ⟨rfl, rfl⟩
        | cons _ _ => cases hps
  | cons step steps ih =>
      simp only [List.forM, ends_bind_iff, ends_lift_iff, ends_add_iff hlabel hidentity, ih]
      constructor
      · rintro ⟨_, mid, ⟨p, _, ⟨rfl, rfl⟩, hadd⟩, ps, rfl, hrest⟩
        exact ⟨p :: ps, rfl, .cons hadd hrest⟩
      · rintro ⟨ps, hps, h⟩
        cases h with
        | nil => cases hps
        | cons first rest =>
            obtain ⟨rfl, rfl⟩ := List.cons.inj hps
            exact ⟨(), _, ⟨_, _, ⟨rfl, rfl⟩, first⟩, _, rfl, rest⟩

/-- A rule goes through when it emits primitives that can be added. -/
theorem ends_ofEmission_iff (hlabel : n.label = .ok label) (hidentity : n.identity = .ok identity)
    {emit : BuildContext → IdentityMap → Node → Outcome LoweringError Emission} {a : Unit} :
    Ends (Rule.ofEmission emit ctx n) s a s' ↔
      ∃ ps, emit ctx s.ids n = .ok (ps.map .ok) ∧
        s.Adds ctx.config.profiling label identity ps s' := by
  simp only [Rule.ofEmission, ends_bind_iff, ends_get_iff, ends_lift_iff,
    ends_forM_add_iff hlabel hidentity]
  constructor
  · rintro ⟨_, _, ⟨rfl, rfl⟩, _, _, ⟨hemit, rfl⟩, ps, rfl, h⟩
    exact ⟨ps, hemit, h⟩
  · rintro ⟨ps, hemit, h⟩
    exact ⟨_, _, ⟨rfl, rfl⟩, _, _, ⟨hemit, rfl⟩, ps, rfl, h⟩

end Build

end TensorLowering
