import TensorLowering.Engine.Basic
import TensorLowering.Program.Basic

/-! # The reference engine

An engine whose programs run on plain tensors. Compiled programs are kept under the fingerprint of
their topology, so that building a topology again gives the program that is there already. A failed
compilation leaves no trace. -/

namespace TensorLowering

/-- A program in a cache; programs with one handle are one and the same. -/
structure SharedProgram where
  handle : Nat
  program : Program
  deriving DecidableEq

/-- Programs by fingerprint, in the order in which they were compiled. -/
structure ProgramCache where
  entries : List (UInt64 × Program)
  deriving DecidableEq

namespace ProgramCache

/-- The cache without programs. -/
def empty : ProgramCache := ⟨[]⟩

instance : Inhabited ProgramCache := ⟨empty⟩

/-- The number of programs. -/
def size (c : ProgramCache) : Nat := c.entries.length

/-- The program under a fingerprint. -/
def get? (c : ProgramCache) (fingerprint : UInt64) : Option SharedProgram := do
  let handle ← c.entries.findIdx? (·.1 == fingerprint)
  let entry ← c.entries[handle]?
  pure ⟨handle, entry.2⟩

/-- The program of a topology, compiled if it is not there. -/
def build (c : ProgramCache) (t : Topology) : Outcome EngineError SharedProgram × ProgramCache :=
  match c.get? t.fingerprint with
  | some shared => (.ok shared, c)
  | none =>
    match Program.compile t with
    | .ok program => (.ok ⟨c.size, program⟩, ⟨c.entries ++ [(t.fingerprint, program)]⟩)
    | .error fault => (.error fault, c)

end ProgramCache

/-- The name of the reference engine. -/
def referenceName : String := "ref-cpu"

/-- The reference engine on a device. The configuration does not change its programs. -/
def referenceEngine (device : Device) : Engine ProgramCache SharedProgram :=
  ⟨referenceName, device, fun t _ cache => cache.build t⟩

/-- The engines that are always there. -/
def standardEngines : EngineTable ProgramCache SharedProgram :=
  NameMap.empty.insert referenceName (referenceEngine (.cpu referenceName))

end TensorLowering
