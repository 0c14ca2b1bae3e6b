import Mathlib.Data.List.Forall2
import Mathlib.Data.List.Induction
import TensorLowering.Engine.Reference
import TensorLowering.Proofs.Outcome
import TensorLowering.Proofs.Topology.Index

/-!
# Builds through the cache

An engine that remembers what it has compiled gives the same answers as one that forgets, as long as
no two topologies that it is given have one fingerprint. What it remembers after a number of builds is
the list of the distinct topologies that compiled, and the handle of a program is the place of its
topology in that list.

## Implementation notes

The cache knows fingerprints and programs only. `ProgramCache.Holds` adds the topologies that the
entries came from; the builds are followed from the end of their list, where one more build adds at
most one topology.

## Main statements

* `Engine.buildAll_eq`: the answers and the cache after any number of builds.
* `Engine.buildAll_transparent`: a build answers as a compilation does, one program is returned for one
  topology, a failure leaves no trace, and the cache counts the topologies that compiled.
-/

namespace TensorLowering

/-- True for the topologies that compile. -/
def Topology.compiles (t : Topology) : Bool := (Program.compile t).toBool

theorem Topology.compiles_iff {t : Topology} :
    t.compiles = true ↔ ∃ program, Program.compile t = .ok program := by
  rw [compiles]
  cases Program.compile t with
  | ok program => simp [Except.toBool]
  | error fault => simp [Except.toBool]

/-- The distinct topologies that compile, in the order in which they come first. -/
def compiled (ts : List Topology) : List Topology := (ts.filter Topology.compiles).eraseDups

theorem mem_compiled_iff {ts : List Topology} {t : Topology} :
    t ∈ compiled ts ↔ t ∈ ts ∧ t.compiles = true := by
  rw [compiled, List.mem_eraseDups, List.mem_filter]

theorem compiled_append_of_mem {ts : List Topology} {t : Topology} (h : t ∈ compiled ts) :
    compiled (ts ++ [t]) = compiled ts := by
  obtain ⟨hmem, hcompiles⟩ := mem_compiled_iff.1 h
  simp [compiled, List.filter_append, List.eraseDups_append, List.removeAll, hmem, hcompiles]

theorem compiled_append_of_compiles {ts : List Topology} {t : Topology} (h : t ∉ compiled ts)
    (hcompiles : t.compiles = true) : compiled (ts ++ [t]) = compiled ts ++ [t] := by
  have hmem : t ∉ ts := fun hmem => h (mem_compiled_iff.2 ⟨hmem, hcompiles⟩)
  simp [compiled, List.filter_append, List.eraseDups_append, List.eraseDups_cons, List.removeAll,
    hmem, hcompiles]

theorem compiled_append_of_fault {ts : List Topology} {t : Topology} (h : t.compiles = false) :
    compiled (ts ++ [t]) = compiled ts := by
  simp [compiled, List.filter_append, h]

/-- No two of the topologies have one fingerprint. -/
def ToldApart (ts : List Topology) : Prop :=
  ∀ t ∈ ts, ∀ u ∈ ts, t.fingerprint = u.fingerprint → t = u

instance : DecidablePred ToldApart := fun ts =>
  inferInstanceAs (Decidable (∀ t ∈ ts, ∀ u ∈ ts, t.fingerprint = u.fingerprint → t = u))

theorem ToldApart.of_append {ts us : List Topology} (h : ToldApart (ts ++ us)) : ToldApart ts :=
  fun t ht u hu => h t (List.mem_append_left us ht) u (List.mem_append_left us hu)

/-- A cache of the programs of the given topologies, in their order. -/
structure ProgramCache.Holds (c : ProgramCache) (ts : List Topology) : Prop where
  nodup : ts.Nodup
  entries : List.Forall₂
    (fun t entry => entry.1 = t.fingerprint ∧ Program.compile t = .ok entry.2) ts c.entries

namespace ProgramCache

variable {c : ProgramCache} {ts : List Topology} {t : Topology}

theorem holds_empty : empty.Holds [] := ⟨List.nodup_nil, .nil⟩

theorem Holds.size_eq (h : c.Holds ts) : c.size = ts.length := h.entries.length_eq.symm

/-- A topology in the cache is found at its own place. -/
theorem Holds.get?_of_mem (h : c.Holds ts) (ht : t ∈ ts)
    (hapart : ∀ u ∈ ts, u.fingerprint = t.fingerprint → u = t) :
    ∃ program, Program.compile t = .ok program ∧
      c.get? t.fingerprint = some ⟨ts.idxOf t, program⟩ := by
  have hplace : ts[ts.idxOf t]? = some t := List.getElem?_idxOf ht
  obtain ⟨⟨fingerprint, program⟩, hentry, rfl, hcompile⟩ := exists_right_of_forall₂ h.entries hplace
  refine ⟨program, hcompile, ?_⟩
  have hfirst : c.entries.findIdx? (·.1 == t.fingerprint) = some (ts.idxOf t) := by
    obtain ⟨hlt, hget⟩ := List.getElem?_eq_some_iff.1 hentry
    rw [List.findIdx?_eq_some_iff_getElem]
    refine ⟨hlt, by simp [hget], ?_⟩
    intro j hj hsame
    -- An entry with this fingerprint stands at the place of the topology itself.
    have hj' : j < c.entries.length := Nat.lt_trans hj hlt
    obtain ⟨u, hu, hfingerprint, -⟩ :=
      exists_left_of_forall₂ h.entries (List.getElem?_eq_getElem hj')
    rw [hfingerprint, beq_iff_eq] at hsame
    have hsecond : ts[j]? = some t := hapart u (List.mem_of_getElem? hu) hsame ▸ hu
    have hj'' : j < ts.length := List.getElem?_eq_some_iff.1 hsecond |>.1
    exact Nat.ne_of_lt hj ((List.getElem?_inj hj'' h.nodup).1 (hsecond.trans hplace.symm))
  simp [get?, hfirst, hentry]

/-- The fingerprint of another topology is not found. -/
theorem Holds.get?_of_notMem (h : c.Holds ts) (ht : t ∉ ts)
    (hapart : ∀ u ∈ ts, u.fingerprint = t.fingerprint → u = t) : c.get? t.fingerprint = none := by
  have hnone : c.entries.findIdx? (·.1 == t.fingerprint) = none := by
    rw [List.findIdx?_eq_none_iff]
    intro entry hentry
    obtain ⟨i, hi⟩ := List.getElem?_of_mem hentry
    obtain ⟨u, hu, hfingerprint, -⟩ := exists_left_of_forall₂ h.entries hi
    have humem := List.mem_of_getElem? hu
    rw [hfingerprint, beq_eq_false_iff_ne]
    rintro heq
    exact ht (hapart u humem heq ▸ humem)
  rw [get?, hnone]
  rfl

/-- A topology that is there is not compiled again. -/
theorem Holds.build_of_mem (h : c.Holds ts) (ht : t ∈ ts)
    (hapart : ∀ u ∈ ts, u.fingerprint = t.fingerprint → u = t) :
    ∃ program, Program.compile t = .ok program ∧
      c.build t = (.ok ⟨ts.idxOf t, program⟩, c) := by
  obtain ⟨program, hcompile, hget⟩ := h.get?_of_mem ht hapart
  exact ⟨program, hcompile, by rw [build, hget]⟩

/-- A topology that is new is compiled, and its program is kept behind the others. -/
theorem Holds.build_of_compile (h : c.Holds ts) (ht : t ∉ ts)
    (hapart : ∀ u ∈ ts, u.fingerprint = t.fingerprint → u = t) {program : Program}
    (hcompile : Program.compile t = .ok program) :
    ∃ next, c.build t = (.ok ⟨ts.length, program⟩, next) ∧ next.Holds (ts ++ [t]) := by
  have hentry : (t.fingerprint, program).1 = t.fingerprint ∧
      Program.compile t = .ok (t.fingerprint, program).2 := by simp only [hcompile, and_self]
  refine ⟨⟨c.entries ++ [(t.fingerprint, program)]⟩, ?_, ?_, ?_⟩
  · rw [build, h.get?_of_notMem ht hapart, hcompile, h.size_eq]
  · exact List.nodup_append.2 ⟨h.nodup, List.pairwise_singleton _ _, by
      intro u hu v hv heq
      exact ht (List.mem_singleton.1 hv ▸ heq ▸ hu)⟩
  · exact List.rel_append h.entries (.cons hentry .nil)

/-- A topology without a program leaves the cache as it is. -/
theorem build_of_fault {fault : Fault EngineError} (h : (c.build t).1 = .error fault) :
    c.build t = (.error fault, c) := by
  unfold build at h ⊢
  cases hget : c.get? t.fingerprint with
  | some shared => simp [hget] at h
  | none =>
      cases hcompile : Program.compile t with
      | ok program => simp [hget, hcompile] at h
      | error fault' => simpa [hget, hcompile] using h

/-- The answer for a topology, if the programs of the given topologies are kept in their order. -/
def answerFrom (ts : List Topology) (t : Topology) : Outcome EngineError SharedProgram :=
  SharedProgram.mk (ts.idxOf t) <$> Program.compile t

/-- What is built later does not change the answer for a topology that was built. -/
theorem answerFrom_append {u : Topology} (ht : t ∈ ts) :
    answerFrom (compiled (ts ++ [u])) t = answerFrom (compiled ts) t := by
  rw [answerFrom, answerFrom]
  cases hcompile : Program.compile t with
  | error fault => rfl
  | ok program =>
      have hmem : t ∈ compiled ts :=
        mem_compiled_iff.2 ⟨ht, Topology.compiles_iff.2 ⟨program, hcompile⟩⟩
      have hplace : (compiled (ts ++ [u])).idxOf t = (compiled ts).idxOf t := by
        by_cases hu : u ∈ compiled ts
        · rw [compiled_append_of_mem hu]
        · cases hcompiles : u.compiles with
          | true => rw [compiled_append_of_compiles hu hcompiles, List.idxOf_append_of_mem hmem]
          | false => rw [compiled_append_of_fault hcompiles]
      rw [hplace]

/-- One build after others: its answer, and the cache that it leaves. -/
theorem Holds.build_eq (h : c.Holds (compiled ts)) (hapart : ToldApart (ts ++ [t])) :
    (c.build t).1 = answerFrom (compiled (ts ++ [t])) t ∧
      (c.build t).2.Holds (compiled (ts ++ [t])) := by
  have hsame : ∀ u ∈ compiled ts, u.fingerprint = t.fingerprint → u = t := by
    intro u hu
    apply hapart u (List.mem_append_left _ (mem_compiled_iff.1 hu).1) t
    exact List.mem_append_right _ (List.mem_singleton_self t)
  by_cases ht : t ∈ compiled ts
  · obtain ⟨program, hcompile, hbuild⟩ := h.build_of_mem ht hsame
    rw [compiled_append_of_mem ht, hbuild, answerFrom, hcompile]
    exact ⟨rfl, h⟩
  · cases hcompile : Program.compile t with
    | ok program =>
        have hcompiles := Topology.compiles_iff.2 ⟨program, hcompile⟩
        obtain ⟨next, hbuild, hnext⟩ := h.build_of_compile ht hsame hcompile
        rw [compiled_append_of_compiles ht hcompiles, hbuild, answerFrom, hcompile,
          List.idxOf_append_of_notMem ht, List.idxOf_cons_self]
        exact ⟨rfl, hnext⟩
    | error fault =>
        have hbuild : c.build t = (.error fault, c) := by
          rw [build, h.get?_of_notMem ht hsame, hcompile]
        have hcompiles : t.compiles = false := by rw [Topology.compiles, hcompile]; rfl
        rw [compiled_append_of_fault hcompiles, hbuild, answerFrom, hcompile]
        exact ⟨rfl, h⟩

/-- Every program was compiled from one of the given topologies. -/
def StemsFrom (c : ProgramCache) (ts : List Topology) : Prop :=
  ∀ entry ∈ c.entries, ∃ t ∈ ts, t.fingerprint = entry.1 ∧ Program.compile t = .ok entry.2

theorem stemsFrom_empty : empty.StemsFrom [] := by simp [StemsFrom, empty]

/-- A build adds no program but that of its own topology. -/
theorem StemsFrom.build (h : c.StemsFrom ts) (t : Topology) :
    (c.build t).2.StemsFrom (ts ++ [t]) := by
  have hkept : c.StemsFrom (ts ++ [t]) := by
    intro entry hentry
    obtain ⟨u, hu, hstem⟩ := h entry hentry
    exact ⟨u, List.mem_append_left _ hu, hstem⟩
  rw [ProgramCache.build]
  split
  · exact hkept
  · split
    · next program hcompile =>
      intro entry hentry
      rcases List.mem_append.1 hentry with hold | hnew
      · exact hkept entry hold
      · refine ⟨t, List.mem_append_right _ (List.mem_singleton_self t), ?_⟩
        obtain ⟨hfingerprint, hprogram⟩ := Prod.mk.inj (List.mem_singleton.1 hnew)
        exact ⟨hfingerprint.symm, hprogram ▸ hcompile⟩
    · exact hkept

/-- A program that is given for a topology was compiled from it, now or before, unless an earlier
topology has its fingerprint. -/
theorem StemsFrom.compile_of_build (h : c.StemsFrom ts) {shared : SharedProgram}
    (hsame : ∀ u ∈ ts, u.fingerprint = t.fingerprint → u = t)
    (hbuild : (c.build t).1 = .ok shared) : Program.compile t = .ok shared.program := by
  rw [ProgramCache.build] at hbuild
  split at hbuild
  · next found hfound =>
    obtain rfl := Except.ok.inj hbuild
    obtain ⟨handle, hhandle, hread⟩ := Option.bind_eq_some_iff.1 hfound
    obtain ⟨entry, hentry, hshared⟩ := Option.bind_eq_some_iff.1 hread
    obtain rfl := Option.some.inj hshared
    obtain ⟨u, hu, hfingerprint, hcompile⟩ := h entry (List.mem_of_getElem? hentry)
    obtain ⟨hlt, hmatch, -⟩ := List.findIdx?_eq_some_iff_getElem.1 hhandle
    rw [(List.getElem?_eq_some_iff.1 hentry).2] at hmatch
    have hu' := hsame u hu (hfingerprint.trans (beq_iff_eq.1 hmatch))
    exact hu' ▸ hcompile
  · split at hbuild
    · next program hcompile =>
      obtain rfl := Except.ok.inj hbuild
      exact hcompile
    · cases hbuild

end ProgramCache

/-- The answers to a number of builds, and what the engine remembers after them. -/
structure History (σ ρ : Type) where
  answers : List (Outcome EngineError ρ)
  memory : σ

namespace Engine

variable {σ ρ : Type} {device : Device} {calls : List (Topology × BuildConfig)}

/-- Builds one after the other; each starts from what the one before it left. -/
def buildAll (e : Engine σ ρ) : List (Topology × BuildConfig) → σ → History σ ρ
  | [], memory => ⟨[], memory⟩
  | (t, config) :: rest, memory =>
    let history := e.buildAll rest (e.build t config memory).2
    ⟨(e.build t config memory).1 :: history.answers, history.memory⟩

theorem buildAll_append (e : Engine σ ρ) (before after : List (Topology × BuildConfig))
    (memory : σ) :
    e.buildAll (before ++ after) memory =
      ⟨(e.buildAll before memory).answers ++
          (e.buildAll after (e.buildAll before memory).memory).answers,
        (e.buildAll after (e.buildAll before memory).memory).memory⟩ := by
  induction before generalizing memory with
  | nil => rfl
  | cons call before ih =>
      obtain ⟨t, config⟩ := call
      simp only [List.cons_append, buildAll, ih]

theorem length_answers (e : Engine σ ρ) (calls : List (Topology × BuildConfig)) (memory : σ) :
    (e.buildAll calls memory).answers.length = calls.length := by
  induction calls generalizing memory with
  | nil => rfl
  | cons call calls ih =>
      obtain ⟨t, config⟩ := call
      rw [buildAll, List.length_cons, List.length_cons, ih]

/-- The answers and the cache of a history are those of its topologies, whatever the
configurations are. -/
theorem buildAll_eq (device : Device) (hapart : ToldApart (calls.map Prod.fst)) :
    ((referenceEngine device).buildAll calls .empty).answers =
        calls.map (fun call => ProgramCache.answerFrom (compiled (calls.map Prod.fst)) call.1) ∧
      ((referenceEngine device).buildAll calls .empty).memory.Holds
        (compiled (calls.map Prod.fst)) := by
  induction calls using List.reverseRecOn with
  | nil => exact ⟨rfl, ProgramCache.holds_empty⟩
  | append_singleton calls call ih =>
      obtain ⟨t, config⟩ := call
      rw [List.map_append, List.map_singleton] at hapart
      obtain ⟨hanswers, hholds⟩ := ih hapart.of_append
      obtain ⟨hanswer, hnext⟩ := hholds.build_eq hapart
      have hearlier : ∀ call ∈ calls,
          ProgramCache.answerFrom (compiled (calls.map Prod.fst ++ [t])) call.1 =
            ProgramCache.answerFrom (compiled (calls.map Prod.fst)) call.1 :=
        fun call hcall => ProgramCache.answerFrom_append (List.mem_map_of_mem hcall)
      rw [buildAll_append, List.map_append, List.map_append, List.map_singleton, List.map_singleton,
        List.map_congr_left hearlier, ← hanswers, ← hanswer]
      exact ⟨rfl, hnext⟩

/-- Whatever was built, the programs in the cache were compiled from it. -/
theorem stemsFrom_buildAll (device : Device) (calls : List (Topology × BuildConfig)) :
    ((referenceEngine device).buildAll calls .empty).memory.StemsFrom (calls.map Prod.fst) := by
  induction calls using List.reverseRecOn with
  | nil => exact ProgramCache.stemsFrom_empty
  | append_singleton calls call ih =>
      obtain ⟨t, config⟩ := call
      rw [buildAll_append, List.map_append, List.map_singleton]
      exact ih.build t

/-- The programs that are returned are those that a compilation without a cache gives. -/
theorem programs_buildAll (device : Device) (hapart : ToldApart (calls.map Prod.fst)) :
    ((referenceEngine device).buildAll calls .empty).answers.map
        (fun answer => SharedProgram.program <$> answer) =
      calls.map fun call => Program.compile call.1 := by
  rw [(buildAll_eq device hapart).1, List.map_map]
  apply List.map_congr_left
  intro call _
  rw [Function.comp_apply, ProgramCache.answerFrom]
  cases Program.compile call.1 <;> rfl

/-- Programs of one handle come from one topology. -/
theorem handle_eq_iff (device : Device) (hapart : ToldApart (calls.map Prod.fst)) {i j : Nat}
    {a b : Topology × BuildConfig} {p q : SharedProgram} (ha : calls[i]? = some a)
    (hb : calls[j]? = some b)
    (hp : ((referenceEngine device).buildAll calls .empty).answers[i]? = some (.ok p))
    (hq : ((referenceEngine device).buildAll calls .empty).answers[j]? = some (.ok q)) :
    p.handle = q.handle ↔ a.1 = b.1 := by
  have hplace : ∀ {k : Nat} {call : Topology × BuildConfig} {s : SharedProgram},
      calls[k]? = some call →
      ((referenceEngine device).buildAll calls .empty).answers[k]? = some (.ok s) →
      call.1 ∈ compiled (calls.map Prod.fst) ∧
        s.handle = (compiled (calls.map Prod.fst)).idxOf call.1 := by
    intro k call s hcall hs
    rw [(buildAll_eq device hapart).1, List.getElem?_map, hcall, Option.map_some,
      Option.some_inj, ProgramCache.answerFrom, Outcome.map_eq_ok_iff] at hs
    obtain ⟨program, hcompile, rfl⟩ := hs
    refine ⟨mem_compiled_iff.2 ⟨?_, Topology.compiles_iff.2 ⟨program, hcompile⟩⟩, rfl⟩
    exact List.mem_map_of_mem (List.mem_of_getElem? hcall)
  obtain ⟨hmem, hhandle⟩ := hplace ha hp
  rw [hhandle, (hplace hb hq).2]
  exact List.idxOf_inj hmem

/-- A build that fails might as well not have been asked for. -/
theorem buildAll_of_fault (device : Device) {before after : List (Topology × BuildConfig)}
    {call : Topology × BuildConfig} {fault : Fault EngineError}
    (hapart : ToldApart ((before ++ [call]).map Prod.fst))
    (hfault : Program.compile call.1 = .error fault) :
    ((referenceEngine device).buildAll (before ++ [call]) .empty).memory =
        ((referenceEngine device).buildAll before .empty).memory ∧
      (referenceEngine device).buildAll (before ++ after) .empty =
        ⟨((referenceEngine device).buildAll (before ++ call :: after) .empty).answers.eraseIdx
            before.length,
          ((referenceEngine device).buildAll (before ++ call :: after) .empty).memory⟩ := by
  obtain ⟨t, config⟩ := call
  rw [List.map_append, List.map_singleton] at hapart
  have hholds := (buildAll_eq device hapart.of_append).2
  have hlength := length_answers (referenceEngine device) before .empty
  set history := (referenceEngine device).buildAll before .empty with hhistory
  have hanswer : (history.memory.build t).1 = .error fault := by
    rw [(hholds.build_eq hapart).1, ProgramCache.answerFrom, hfault]
    rfl
  have hbuild : (referenceEngine device).build t config history.memory =
      (.error fault, history.memory) := ProgramCache.build_of_fault hanswer
  constructor
  · rw [buildAll_append, ← hhistory, buildAll, hbuild, buildAll]
  · rw [buildAll_append, buildAll_append, ← hhistory, buildAll, hbuild,
      List.eraseIdx_append_of_length_le (Nat.le_of_eq hlength), hlength, Nat.sub_self,
      List.eraseIdx_cons_zero]

/-- An engine with a cache answers as one without, returns one program for one topology, forgets its
failures, and keeps as many programs as there are topologies that compiled. -/
theorem buildAll_transparent (device : Device) (hapart : ToldApart (calls.map Prod.fst)) :
    ((referenceEngine device).buildAll calls .empty).answers.map
        (fun answer => SharedProgram.program <$> answer) =
      calls.map (fun call => Program.compile call.1) ∧
    (∀ (i j : Nat) (a b : Topology × BuildConfig) (p q : SharedProgram),
      calls[i]? = some a → calls[j]? = some b →
      ((referenceEngine device).buildAll calls .empty).answers[i]? = some (.ok p) →
      ((referenceEngine device).buildAll calls .empty).answers[j]? = some (.ok q) →
      (p.handle = q.handle ↔ a.1 = b.1)) ∧
    (∀ (before after : List (Topology × BuildConfig)) (call : Topology × BuildConfig)
      (fault : Fault EngineError), calls = before ++ call :: after →
      Program.compile call.1 = .error fault →
      ((referenceEngine device).buildAll (before ++ [call]) .empty).memory =
          ((referenceEngine device).buildAll before .empty).memory ∧
        (referenceEngine device).buildAll (before ++ after) .empty =
          ⟨((referenceEngine device).buildAll calls .empty).answers.eraseIdx before.length,
            ((referenceEngine device).buildAll calls .empty).memory⟩) ∧
    ∀ k : Nat, ((referenceEngine device).buildAll (calls.take k) .empty).memory.size =
      (compiled ((calls.take k).map Prod.fst)).length := by
  refine ⟨programs_buildAll device hapart, ?_, ?_, ?_⟩
  · intro i j a b p q ha hb hp hq
    exact handle_eq_iff device hapart ha hb hp hq
  · rintro before after call fault rfl hfault
    apply buildAll_of_fault device _ hfault
    rw [List.append_cons, List.map_append] at hapart
    exact hapart.of_append
  · intro k
    rw [← List.take_append_drop k calls, List.map_append] at hapart
    exact (buildAll_eq device hapart.of_append).2.size_eq

/-- Builds of a parameter, of a kernel that cannot be compiled, and of the parameter once more. -/
def repeatedBuilds : List (Topology × BuildConfig) :=
  let type := TensorType.ofSizes .f32 [1]
  let parameter : Topology :=
    .ofPrimitives [⟨"parameter:x", .inputLayout type, [], "x", "Parameter"⟩]
      (List.pairwise_singleton _ _)
  let kernel : Topology :=
    .ofPrimitives [⟨"k", .customKernel ⟨"run", "", "", [1], [1], type⟩, [], "k", "Kernel"⟩]
      (List.pairwise_singleton _ _)
  [(parameter, {}), (kernel, {}), (parameter, { partialBuild := true })]

/-- The second build of the parameter finds the program of the first. -/
theorem size_repeatedBuilds :
    ToldApart (repeatedBuilds.map Prod.fst) ∧
      ((referenceEngine (.cpu referenceName)).buildAll repeatedBuilds .empty).memory.size = 1 := by
  have hapart : ToldApart (repeatedBuilds.map Prod.fst) := by decide +kernel
  refine ⟨hapart, ?_⟩
  have hsize := (buildAll_transparent (.cpu referenceName) hapart).2.2.2 3
  exact hsize.trans (by decide +kernel)

end Engine

end TensorLowering
