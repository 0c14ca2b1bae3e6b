import TensorLowering.Lowering.Rule.Basic
import TensorLowering.Lowering.Rule.Kernel
import TensorLowering.Lowering.Rule.Layout
import TensorLowering.Lowering.Rule.Product

/-! # Registries

A registry knows the rules of kinds of operations. A kind has at most one rule. -/

namespace TensorLowering

/-- Rules by kind. -/
structure Registry where
  entries : List (OpKind × Rule)

namespace Registry

/-- The registry without rules. -/
def empty : Registry := ⟨[]⟩

instance : Inhabited Registry := ⟨empty⟩

/-- The rule of a kind. -/
def rule? (r : Registry) (kind : OpKind) : Option Rule := r.entries.lookup kind

/-- True when the kind has a rule. -/
def contains (r : Registry) (kind : OpKind) : Bool := (r.rule? kind).isSome

/-- The number of kinds with a rule. -/
def size (r : Registry) : Nat := r.entries.length

/-- Adds a rule for a kind that has none. -/
def register (r : Registry) (kind : OpKind) (rule : Rule) : Except LoweringError Registry :=
  if r.contains kind then .error (.duplicateRule kind) else .ok ⟨r.entries ++ [(kind, rule)]⟩

/-- True when a kind comes before another: by name, then by version. -/
def kindLE (a b : OpKind) : Bool := a.name < b.name || a.name == b.name && a.version ≤ b.version

/-- The kinds with a rule, by name and then by version. -/
def kinds (r : Registry) : List OpKind := (r.entries.map (·.1)).mergeSort kindLE

/-- The rules of the operation sets. -/
def standard : Registry :=
  ⟨Opset.elementwise.map (·, Rule.eltwise) ++
    [(Opset.erf, Rule.erf), (Opset.reduction, Rule.reduction), (Opset.split, Rule.split),
     (Opset.variadicSplit, Rule.split), (Opset.transpose, Rule.transpose), (Opset.reshape, Rule.reshape),
     (Opset.concat, Rule.concat), (Opset.parameter, Rule.parameter), (Opset.constant, Rule.constant),
     (Opset.result, Rule.result), (Opset.matMul, Rule.matMul),
     (Opset.fullyConnected, Rule.fullyConnected),
     (Opset.fullyConnectedCompressed, Rule.fullyConnectedCompressed)]⟩

end Registry

end TensorLowering
