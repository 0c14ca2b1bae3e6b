/-! # Faults

A computation ends with a value, with an error of its domain, or by an abort. An abort stands for a
broken promise of the caller, such as a node number outside the graph; it is kept apart from the
errors so that statements can say that it does not happen. -/

namespace TensorLowering

/-- How a computation ends without a value. -/
inductive Fault (ε : Type) where
  | error (cause : ε)
  | abort
  deriving DecidableEq, Repr

/-- A value or a fault. -/
abbrev Outcome (ε α : Type) := Except (Fault ε) α

namespace Outcome

variable {ε δ α : Type}

/-- Ends with an error. -/
def fail (cause : ε) : Outcome ε α := .error (.error cause)

/-- Ends without an error. -/
def abort : Outcome ε α := .error .abort

/-- The value that must be there. -/
def ofOption : Option α → Outcome ε α
  | some a => .ok a
  | none => abort

/-- The value, or an error when there is none. -/
def ofOptionOr (cause : ε) : Option α → Outcome ε α
  | some a => .ok a
  | none => fail cause

/-- Renames the errors. -/
def mapError (f : ε → δ) : Outcome ε α → Outcome δ α
  | .ok a => .ok a
  | .error (.error cause) => .error (.error (f cause))
  | .error .abort => .error .abort

end Outcome

end TensorLowering
