import TensorLowering.Config.Basic
import TensorLowering.Engine.Error
import TensorLowering.Json.Value
import TensorLowering.NameMap
import TensorLowering.Topology.Basic

/-! # Engines

An engine turns a topology into a program for its device. What it remembers between builds is a value
that it takes and gives back. Engines are registered under names. -/

namespace TensorLowering

open Json

/-- The kind of a device. -/
inductive DeviceKind where
  | cpu
  | gpu
  deriving DecidableEq, Repr

/-- The tag of the kind. -/
def DeviceKind.tag : DeviceKind → String
  | cpu => "Cpu"
  | gpu => "Gpu"

/-- What the lowering knows about a device. -/
structure Device where
  name : String
  kind : DeviceKind
  /-- The device multiplies and accumulates integer matrices. -/
  integerProducts : Bool
  deriving DecidableEq, Repr

namespace Device

/-- A processor without special support. -/
def cpu (name : String) : Device := ⟨name, .cpu, false⟩

/-- The record of a device. -/
def toValue (d : Device) : Value :=
  .object [("name", .string d.name), ("kind", .string d.kind.tag), ("supports_immad", .bool d.integerProducts)]

end Device

/-- An engine with memory `σ` that builds programs `ρ`. A failed build also gives back the memory. -/
structure Engine (σ ρ : Type) where
  name : String
  device : Device
  build : Topology → BuildConfig → σ → Outcome EngineError ρ × σ

/-- Engines by name; of two engines registered under one name the later counts. -/
abbrev EngineTable (σ ρ : Type) := NameMap (Engine σ ρ)

end TensorLowering
