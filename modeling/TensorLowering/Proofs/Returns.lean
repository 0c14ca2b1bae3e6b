import TensorLowering.Proofs.Outcome

/-!
# The faults of computations

A sequence of steps can only end with the faults of its first step, and with those of each later one
on the values that it can get; so the statements about a computation follow its text. A computation
returns when it ends with a value or with an error of its domain, and not by an abort.

## Main statements

* `Outcome.FaultsIn.bind`: the faults of two steps in sequence.
* `Outcome.returns_iff`: what it means to return.
-/

namespace TensorLowering.Outcome

variable {ε α β : Type}

/-- All faults that the computation can end with satisfy `P`. -/
def FaultsIn (P : Fault ε → Prop) (x : Outcome ε α) : Prop := ∀ fault, x = .error fault → P fault

section FaultsIn

variable {P : Fault ε → Prop}

@[simp] theorem faultsIn_ok (a : α) : FaultsIn P (.ok a) := by simp [FaultsIn]

@[simp] theorem faultsIn_pure (a : α) : FaultsIn P (pure a) := faultsIn_ok a

theorem faultsIn_fault {fault : Fault ε} (h : P fault) :
    FaultsIn P (.error fault : Outcome ε α) := by
  intro fault' hfault
  obtain rfl := Except.error.inj hfault
  exact h

theorem faultsIn_fail {cause : ε} (h : P (.error cause)) : FaultsIn P (fail cause : Outcome ε α) :=
  faultsIn_fault h

theorem faultsIn_abort (h : P .abort) : FaultsIn P (abort : Outcome ε α) := faultsIn_fault h

theorem faultsIn_ofOption (h : P .abort) (o : Option α) : FaultsIn P (ofOption o) := by
  cases o with
  | none => exact faultsIn_abort h
  | some a => exact faultsIn_ok a

theorem faultsIn_ofOptionOr {cause : ε} (h : P (.error cause)) (o : Option α) :
    FaultsIn P (ofOptionOr cause o) := by
  cases o with
  | none => exact faultsIn_fail h
  | some a => exact faultsIn_ok a

/-- Renamed errors and aborts are all that is left of the faults. -/
theorem faultsIn_mapError {δ : Type} {f : δ → ε} (h : ∀ cause, P (.error (f cause)))
    (habort : P .abort) (x : Outcome δ α) : FaultsIn P (x.mapError f) := by
  rcases x with (cause | _) | a
  · exact faultsIn_fail (h cause)
  · exact faultsIn_abort habort
  · exact faultsIn_ok a

namespace FaultsIn

variable {x : Outcome ε α} {xs : List α}

/-- Two steps in sequence end with a fault of the first, or of the second on the value of the
first. -/
theorem bind {f : α → Outcome ε β} (h : FaultsIn P x) (hf : ∀ a, x = .ok a → FaultsIn P (f a)) :
    FaultsIn P (x >>= f) := by
  cases x with
  | ok a => exact hf a rfl
  | error fault => exact faultsIn_fault (h fault rfl)

theorem map {f : α → β} (h : FaultsIn P x) : FaultsIn P (f <$> x) := by
  rw [← bind_pure_comp]
  exact h.bind fun a _ => faultsIn_pure (f a)

theorem ite {c : Prop} [Decidable c] {y : Outcome ε α} (h : c → FaultsIn P x)
    (h' : ¬ c → FaultsIn P y) : FaultsIn P (if c then x else y) := by
  split
  · next hc => exact h hc
  · next hc => exact h' hc

/-- Steps in a row end with a fault of one of them. -/
theorem mapM {f : α → Outcome ε β} (h : ∀ a ∈ xs, FaultsIn P (f a)) : FaultsIn P (xs.mapM f) := by
  induction xs with
  | nil => exact faultsIn_pure []
  | cons a xs ih =>
      obtain ⟨ha, hxs⟩ := List.forall_mem_cons.1 h
      rw [List.mapM_cons]
      exact ha.bind fun _ _ => (ih hxs).bind fun _ _ => faultsIn_pure _

theorem forM {f : α → Outcome ε PUnit} (h : ∀ a ∈ xs, FaultsIn P (f a)) :
    FaultsIn P (xs.forM f) := by
  induction xs with
  | nil => exact faultsIn_pure _
  | cons a xs ih =>
      obtain ⟨ha, hxs⟩ := List.forall_mem_cons.1 h
      exact ha.bind fun _ _ => ih hxs

theorem foldlM {f : β → α → Outcome ε β} {b : β} (h : ∀ b, ∀ a ∈ xs, FaultsIn P (f b a)) :
    FaultsIn P (xs.foldlM f b) := by
  induction xs generalizing b with
  | nil => exact faultsIn_pure b
  | cons a xs ih =>
      rw [List.foldlM_cons]
      apply (h b a List.mem_cons_self).bind
      intro c _
      exact ih fun b' a' ha' => h b' a' (List.mem_cons_of_mem _ ha')

end FaultsIn

end FaultsIn

/-- The computation does not end by an abort. -/
def Returns (x : Outcome ε α) : Prop := x ≠ .error .abort

/-- A computation that returns ends with a value or with an error. -/
theorem returns_iff {x : Outcome ε α} :
    Returns x ↔ (∃ a, x = .ok a) ∨ ∃ cause, x = .error (.error cause) := by
  rcases x with (cause | _) | a <;> simp [Returns]

/-- To return is to have no abort among the faults. -/
theorem returns_iff_faultsIn {x : Outcome ε α} : Returns x ↔ FaultsIn (· ≠ .abort) x := by
  constructor
  · rintro h _ hx rfl
    exact h hx
  · intro h hx
    exact h .abort hx rfl

@[simp] theorem returns_ok (a : α) : Returns (.ok a : Outcome ε α) := by simp [Returns]

@[simp] theorem returns_pure (a : α) : Returns (pure a : Outcome ε α) := returns_ok a

@[simp] theorem returns_fail (cause : ε) : Returns (fail cause : Outcome ε α) := by
  simp [Returns, fail]

/-- Nothing runs behind an error. -/
@[simp] theorem returns_fail_bind (cause : ε) (f : α → Outcome ε β) :
    Returns (fail cause >>= f) := returns_fail cause

@[simp] theorem returns_ofOptionOr (cause : ε) (o : Option α) : Returns (ofOptionOr cause o) :=
  returns_iff_faultsIn.2 (faultsIn_ofOptionOr (by simp) o)

/-- A value that has to be there returns when it is. -/
theorem returns_ofOption {o : Option α} (h : ∃ a, o = some a) :
    Returns (ofOption o : Outcome ε α) := by
  obtain ⟨a, rfl⟩ := h
  exact returns_ok a

/-- What is done with a value that is there. -/
theorem returns_ofOption_bind {o : Option α} {a : α} {f : α → Outcome ε β} (h : o = some a)
    (hf : Returns (f a)) : Returns (ofOption o >>= f) := by
  subst h
  exact hf

namespace Returns

variable {x : Outcome ε α} {xs : List α}

/-- Two steps in sequence return when the first does, and the second does on the value of the
first. -/
theorem bind {f : α → Outcome ε β} (h : Returns x) (hf : ∀ a, x = .ok a → Returns (f a)) :
    Returns (x >>= f) := by
  simp only [returns_iff_faultsIn] at *
  exact h.bind hf

/-- A fault that is no abort is none for values of another type. -/
theorem error {fault : Fault ε} (h : Returns (.error fault : Outcome ε α)) :
    Returns (.error fault : Outcome ε β) :=
  fun habort => h (by rw [Except.error.inj habort])

theorem map {f : α → β} (h : Returns x) : Returns (f <$> x) := by
  rw [returns_iff_faultsIn] at *
  exact h.map

theorem ite {c : Prop} [Decidable c] {y : Outcome ε α} (h : c → Returns x) (h' : ¬ c → Returns y) :
    Returns (if c then x else y) := by
  simp only [returns_iff_faultsIn] at *
  exact .ite h h'

/-- Steps in a row return when each of them does. -/
theorem mapM {f : α → Outcome ε β} (h : ∀ a ∈ xs, Returns (f a)) : Returns (xs.mapM f) := by
  simp only [returns_iff_faultsIn] at *
  exact .mapM h

theorem forM {f : α → Outcome ε PUnit} (h : ∀ a ∈ xs, Returns (f a)) : Returns (xs.forM f) := by
  simp only [returns_iff_faultsIn] at *
  exact .forM h

end Returns

end TensorLowering.Outcome
