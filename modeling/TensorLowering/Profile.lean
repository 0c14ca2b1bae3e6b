import TensorLowering.Json.Value

/-! # Profiles

A profile lists primitives in the order in which they were recorded, with what became of them when
the program ran. -/

namespace TensorLowering

open Json

/-- What became of a primitive. -/
inductive ProfileStatus where
  | executed
  /-- The primitive only passed its input on. -/
  | optimizedOut
  deriving DecidableEq, Repr

/-- The tag of the status. -/
def ProfileStatus.tag : ProfileStatus → String
  | executed => "Executed"
  | optimizedOut => "OptimizedOut"

/-- What is known about a primitive; times are in microseconds. -/
structure ProfileEntry where
  id : String
  layerType : String
  originName : String
  status : ProfileStatus
  isCpu : Bool
  cpuTime : Nat
  deviceTime : Nat
  deriving DecidableEq, Repr

namespace ProfileEntry

/-- An entry as it is before the program runs. -/
def new (id layerType originName : String) : ProfileEntry :=
  ⟨id, layerType, originName, .executed, false, 0, 0⟩

/-- The record of an entry. -/
def toValue (e : ProfileEntry) : Value :=
  .object [("primitive_id", .string e.id), ("layer_type", .string e.layerType),
    ("origin_op_name", .string e.originName), ("status", .string e.status.tag),
    ("is_cpu", .bool e.isCpu), ("cpu_micros", .nat e.cpuTime), ("device_micros", .nat e.deviceTime)]

end ProfileEntry

/-- The entries of a profile in recording order; an identifier occurs once. -/
structure Profile where
  entries : List ProfileEntry
  deriving DecidableEq, Repr

namespace Profile

/-- The profile without entries. -/
def empty : Profile := ⟨[]⟩

instance : Inhabited Profile := ⟨empty⟩

/-- The entry of a primitive. -/
def get? (p : Profile) (id : String) : Option ProfileEntry := p.entries.find? (·.id == id)

/-- The number of entries. -/
def size (p : Profile) : Nat := p.entries.length

/-- Starts an entry afresh: in its old place if there is one, otherwise at the end. -/
def record (p : Profile) (id layerType originName : String) : Profile :=
  let entry := ProfileEntry.new id layerType originName
  if p.entries.any (·.id == id) then ⟨p.entries.map fun e => if e.id = id then entry else e⟩
  else ⟨p.entries ++ [entry]⟩

/-- Stores what became of a primitive; without an entry for it nothing happens. -/
def update (p : Profile) (id : String) (status : ProfileStatus) (cpuTime deviceTime : Nat) : Profile :=
  ⟨p.entries.map fun e =>
    if e.id = id then { e with status := status, cpuTime := cpuTime, deviceTime := deviceTime } else e⟩

end Profile

end TensorLowering
