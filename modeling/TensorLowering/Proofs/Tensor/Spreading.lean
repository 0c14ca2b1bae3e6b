import TensorLowering.Proofs.Tensor.Broadcast
import TensorLowering.Proofs.Tensor.Kernels

/-!
# Broadcasting as a join

Size lists are ordered by what they spread to, and the list without axes spreads to every other one.
Broadcasting is the join of this order as far as there is one: two size lists broadcast exactly when
there are sizes that both spread to, and their common sizes spread to all of these. So the sizes that
several operands are brought to depend only on what all of them spread to, and the laws of broadcasting
are laws of conjunctions.

## Main statements

* `Indexing.exists_broadcastSizes_iff`: common sizes are a join.
* `Tensor.eq_ok_congr`: a result is determined by what it spreads to.
* `Tensor.broadcast_laws`: the laws of broadcasting, also in chains of any grouping.
-/

namespace TensorLowering

namespace Indexing

section Reversed

variable {l r u : Nat} {ls rs us : List Nat}

/-- An axis takes on another size when it has it already, or has size one. -/
theorem broadcastExtent_eq_right_iff : broadcastExtent l u = some u ↔ l = u ∨ l = 1 := by
  rw [broadcastExtent_eq_some_iff, Fits, fittedSize]
  split <;> simp_all

/-- The common size of an axis takes on exactly what both of its sizes take on. -/
theorem exists_broadcastExtent_iff :
    (∃ extent, broadcastExtent l r = some extent ∧ broadcastExtent extent u = some u) ↔
      broadcastExtent l u = some u ∧ broadcastExtent r u = some u := by
  simp only [broadcastExtent_eq_right_iff, broadcastExtent_eq_some_iff, and_assoc, exists_and_left,
    exists_eq_left', Fits, fittedSize]
  by_cases hone : l = 1
  · simp [hone]
  · simp only [hone, if_false, or_false, false_or]
    rw [and_comm]
    apply and_congr_right
    rintro rfl
    rw [eq_comm]

theorem broadcastReversed_cons_eq_some_iff {out : List Nat} :
    broadcastReversed (l :: ls) (r :: rs) = some out ↔ ∃ extent rest,
      broadcastExtent l r = some extent ∧ broadcastReversed ls rs = some rest ∧
        extent :: rest = out := by
  simp only [broadcastReversed, bind, Option.bind_eq_some_iff, pure, Option.some.injEq,
    exists_and_left]

/-- Sizes that start with their last axes take on longer ones axis by axis. -/
theorem broadcastReversed_cons_eq_right_iff :
    broadcastReversed (l :: ls) (u :: us) = some (u :: us) ↔
      broadcastExtent l u = some u ∧ broadcastReversed ls us = some us := by
  rw [broadcastReversed_cons_eq_some_iff]
  constructor
  · rintro ⟨extent, rest, hextent, hrest, h⟩
    cases h
    exact ⟨hextent, hrest⟩
  · rintro ⟨hextent, hrest⟩
    exact ⟨u, us, hextent, hrest, rfl⟩

theorem broadcastReversed_self (ls : List Nat) : broadcastReversed ls ls = some ls := by
  induction ls with
  | nil => rfl
  | cons l ls ih =>
      exact broadcastReversed_cons_eq_right_iff.2 ⟨broadcastExtent_eq_right_iff.2 (.inl rfl), ih⟩

theorem broadcastReversed_cons_nil_ne : broadcastReversed (l :: ls) [] ≠ some [] := by
  simp [broadcastReversed]

/-- The common sizes take on exactly what both size lists take on. -/
theorem exists_broadcastReversed_iff :
    (∃ out, broadcastReversed ls rs = some out ∧ broadcastReversed out us = some us) ↔
      broadcastReversed ls us = some us ∧ broadcastReversed rs us = some us := by
  -- From the last axis on the lists are aligned whatever their lengths are, so one induction does.
  induction ls generalizing rs us with
  | nil => simp [broadcastReversed]
  | cons l ls ih =>
      cases rs with
      | nil => simp [broadcastReversed]
      | cons r rs =>
          cases us with
          | nil =>
              refine iff_of_false ?_ fun h => broadcastReversed_cons_nil_ne h.1
              rintro ⟨out, hout, h⟩
              obtain ⟨extent, rest, -, -, rfl⟩ := broadcastReversed_cons_eq_some_iff.1 hout
              exact broadcastReversed_cons_nil_ne h
          | cons u us =>
              rw [broadcastReversed_cons_eq_right_iff, broadcastReversed_cons_eq_right_iff,
                and_and_and_comm, ← exists_broadcastExtent_iff, ← ih]
              constructor
              · rintro ⟨out, hout, h⟩
                obtain ⟨extent, rest, hextent, hrest, rfl⟩ := broadcastReversed_cons_eq_some_iff.1 hout
                obtain ⟨hextent', hrest'⟩ := broadcastReversed_cons_eq_right_iff.1 h
                exact ⟨⟨extent, hextent, hextent'⟩, rest, hrest, hrest'⟩
              · rintro ⟨⟨extent, hextent, hextent'⟩, rest, hrest, hrest'⟩
                exact ⟨extent :: rest,
                  broadcastReversed_cons_eq_some_iff.2 ⟨extent, rest, hextent, hrest, rfl⟩,
                  broadcastReversed_cons_eq_right_iff.2 ⟨hextent', hrest'⟩⟩

end Reversed

variable {lhs rhs sizes target : List Nat}

theorem spreadsTo_iff_reversed : SpreadsTo sizes target ↔
    broadcastReversed sizes.reverse target.reverse = some target.reverse := by
  rw [SpreadsTo, ← broadcastSizes_eq_some_iff, broadcastSizes, Option.map_eq_some_iff]
  simp [List.reverse_eq_iff]

@[simp] theorem SpreadsTo.refl (sizes : List Nat) : SpreadsTo sizes sizes :=
  spreadsTo_iff_reversed.2 (broadcastReversed_self _)

/-- Without axes there is nothing that could disagree. -/
@[simp] theorem nil_spreadsTo (target : List Nat) : SpreadsTo [] target :=
  spreadsTo_iff_reversed.2 rfl

theorem SpreadsTo.antisymm (h : SpreadsTo sizes target) (h' : SpreadsTo target sizes) :
    sizes = target := by
  -- Each of the two is the common sizes of both.
  have hcomm := broadcastSizes_comm target sizes
  rw [h.broadcastSizes_eq, h'.broadcastSizes_eq] at hcomm
  exact Option.some.inj hcomm

/-- The common sizes of two size lists are their join: they are there and spread to some sizes exactly
when both size lists do. -/
theorem exists_broadcastSizes_iff :
    (∃ out, broadcastSizes lhs rhs = some out ∧ SpreadsTo out target) ↔
      SpreadsTo lhs target ∧ SpreadsTo rhs target := by
  simp only [spreadsTo_iff_reversed, ← exists_broadcastReversed_iff, broadcastSizes,
    Option.map_eq_some_iff]
  constructor
  · rintro ⟨_, ⟨out, hout, rfl⟩, h⟩
    rw [List.reverse_reverse] at h
    exact ⟨out, hout, h⟩
  · rintro ⟨out, hout, h⟩
    exact ⟨_, ⟨out, hout, rfl⟩, by rwa [List.reverse_reverse]⟩

end Indexing

namespace Tensor

open Indexing Outcome

/-- There is a result, and it spreads to the given sizes. -/
def ResultSpreadsTo (result : Outcome EngineError (List Nat)) (target : List Nat) : Prop :=
  ∃ out, result = .ok out ∧ SpreadsTo out target

section Results

variable {x y : Outcome EngineError (List Nat)} {f : List Nat → Outcome EngineError (List Nat)}
  {a b out target : List Nat}

@[simp] theorem resultSpreadsTo_ok_iff : ResultSpreadsTo (.ok a) target ↔ SpreadsTo a target := by
  simp [ResultSpreadsTo]

/-- A step that only asks for more than its operand does asks for both. -/
theorem resultSpreadsTo_bind_iff {further : Prop}
    (h : ∀ a, ResultSpreadsTo (f a) target ↔ SpreadsTo a target ∧ further) :
    ResultSpreadsTo (x >>= f) target ↔ ResultSpreadsTo x target ∧ further := by
  constructor
  · rintro ⟨out, hout, htarget⟩
    obtain ⟨a, hx, hf⟩ := bind_eq_ok_iff.1 hout
    obtain ⟨ha, hfurther⟩ := (h a).1 ⟨out, hf, htarget⟩
    exact ⟨⟨a, hx, ha⟩, hfurther⟩
  · rintro ⟨⟨a, hx, ha⟩, hfurther⟩
    obtain ⟨out, hf, htarget⟩ := (h a).2 ⟨ha, hfurther⟩
    exact ⟨out, bind_eq_ok_iff.2 ⟨a, hx, hf⟩, htarget⟩

/-- Broadcasting is a join. -/
@[simp] theorem resultSpreadsTo_broadcast_iff :
    ResultSpreadsTo (broadcast a b) target ↔ SpreadsTo a target ∧ SpreadsTo b target := by
  simp only [ResultSpreadsTo, broadcast_eq_ok_iff, exists_broadcastSizes_iff]

/-- An operand and a result are broadcast to what both spread to. -/
theorem resultSpreadsTo_bind_broadcast_iff :
    ResultSpreadsTo (x >>= broadcast a) target ↔ SpreadsTo a target ∧ ResultSpreadsTo x target := by
  rw [and_comm]
  apply resultSpreadsTo_bind_iff
  intro b
  rw [resultSpreadsTo_broadcast_iff, and_comm]

/-- A result spreads to itself, so another one that spreads to the same sizes is there and equal. -/
theorem eq_ok_of_resultSpreadsTo_iff
    (h : ∀ target, ResultSpreadsTo x target ↔ ResultSpreadsTo y target) (hx : x = .ok out) :
    y = .ok out := by
  obtain ⟨out', hy, hout'⟩ := (h out).1 ⟨out, hx, .refl out⟩
  obtain ⟨out'', hx', hout⟩ := (h out').2 ⟨out', hy, .refl out'⟩
  obtain rfl := Except.ok.inj (hx.symm.trans hx')
  rwa [hout.antisymm hout']

/-- A result is determined by what it spreads to. -/
theorem eq_ok_congr (h : ∀ target, ResultSpreadsTo x target ↔ ResultSpreadsTo y target) :
    x = .ok out ↔ y = .ok out :=
  ⟨eq_ok_of_resultSpreadsTo_iff h, eq_ok_of_resultSpreadsTo_iff fun target => (h target).symm⟩

/-- What operands are brought to one after the other spreads to what all of them spread to. -/
theorem resultSpreadsTo_foldlM_iff {operands : List (List Nat)} :
    ResultSpreadsTo (operands.foldlM broadcast a) target ↔
      SpreadsTo a target ∧ ∀ b ∈ operands, SpreadsTo b target := by
  induction operands generalizing a with
  | nil => simp [pure, Except.pure]
  | cons b operands ih =>
      rw [List.foldlM_cons, resultSpreadsTo_bind_iff fun _ => ih, resultSpreadsTo_broadcast_iff,
        and_assoc, List.forall_mem_cons]

end Results

/-- A chain of broadcasts: size lists that are broadcast two at a time, in some grouping. -/
inductive BroadcastChain where
  | operand (sizes : List Nat)
  | pair (left right : BroadcastChain)
  deriving DecidableEq, Repr

namespace BroadcastChain

/-- The operands from left to right. -/
def operands : BroadcastChain → List (List Nat)
  | operand sizes => [sizes]
  | pair left right => left.operands ++ right.operands

/-- The sizes that the operands are brought to. -/
def sizes : BroadcastChain → Outcome EngineError (List Nat)
  | operand sizes => .ok sizes
  | pair left right => do broadcast (← left.sizes) (← right.sizes)

/-- The sizes of a chain spread to what all of its operands spread to. -/
theorem resultSpreadsTo_sizes_iff {chain : BroadcastChain} {target : List Nat} :
    ResultSpreadsTo chain.sizes target ↔ ∀ b ∈ chain.operands, SpreadsTo b target := by
  induction chain with
  | operand own => simp [sizes, operands]
  | pair left right ihl ihr =>
      rw [sizes, resultSpreadsTo_bind_iff fun a => resultSpreadsTo_bind_broadcast_iff, ihl, ihr,
        operands, List.forall_mem_append]

end BroadcastChain

/-- Broadcasting is commutative and associative as far as it is defined, every size list broadcasts with
itself and with the list without axes to itself, and where broadcasting is not defined the error names
both operands. The sizes of a chain of broadcasts are those that broadcasting its operands from left to
right gives, however the chain is grouped. -/
theorem broadcast_laws (a b c out : List Nat) :
    (broadcast a b = .ok out ↔ broadcast b a = .ok out) ∧
    broadcast a a = .ok a ∧ broadcast a [] = .ok a ∧
    ((do broadcast (← broadcast a b) c) = .ok out ↔ (do broadcast a (← broadcast b c)) = .ok out) ∧
    ((∃ sizes, broadcast a b = .ok sizes) ∨ broadcast a b = failExecution (.noBroadcast a b)) ∧
    ∀ chain : BroadcastChain, chain.sizes = .ok out ↔ chain.operands.foldlM broadcast [] = .ok out := by
  refine ⟨?_, ?_, ?_, ?_, ?_, ?_⟩
  · apply eq_ok_congr
    intro target
    rw [resultSpreadsTo_broadcast_iff, resultSpreadsTo_broadcast_iff, and_comm]
  · rw [broadcast_eq_ok_iff]
    exact (SpreadsTo.refl a).broadcastSizes_eq
  · rw [broadcast_eq_ok_iff, broadcastSizes_comm]
    exact (nil_spreadsTo a).broadcastSizes_eq
  · apply eq_ok_congr
    intro target
    rw [resultSpreadsTo_bind_iff fun ab => resultSpreadsTo_broadcast_iff,
      resultSpreadsTo_bind_broadcast_iff, resultSpreadsTo_broadcast_iff, resultSpreadsTo_broadcast_iff,
      and_assoc]
  · cases h : broadcastSizes a b with
    | none => exact .inr (by rw [broadcast, h]; rfl)
    | some sizes => exact .inl ⟨sizes, broadcast_eq_ok_iff.2 h⟩
  · intro chain
    apply eq_ok_congr
    intro target
    rw [chain.resultSpreadsTo_sizes_iff, resultSpreadsTo_foldlM_iff, and_iff_right (nil_spreadsTo target)]

/-- Operands of three ranks, none of which has the common sizes. -/
example : (BroadcastChain.pair (.operand [2, 1]) (.pair (.operand [3]) (.operand [4, 1, 1]))).sizes =
    .ok [4, 2, 3] := rfl

end Tensor

end TensorLowering
