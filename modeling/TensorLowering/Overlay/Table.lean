import TensorLowering.Files
import TensorLowering.Json.Reader
import TensorLowering.NameMap
import TensorLowering.Overlay.Descriptor
import TensorLowering.Overlay.WorkSize

/-! # Overlays

An overlay keeps one kernel descriptor for each operation type that it covers. Documents are loaded
one after the other; a document may only replace what is there when it is allowed to.

## Main statements

* `Overlay.get?_insert`: after a successful insertion the type has the descriptor inserted, and every
  other type has the one it had. -/

namespace TensorLowering

open Json

/-- What can be wrong with an overlay. -/
inductive OverlayError where
  | io (path : String)
  | parse (source : String)
  | duplicate (type source : String)
  | workSize (expression : String) (fault : Overlay.WorkSizeFault)
  deriving DecidableEq, Repr

/-- The text of the error. What went wrong while reading a file or a document is not part of it. -/
def OverlayError.message : OverlayError → String
  | io path => s!"failed to read custom kernel config {path}"
  | parse source => s!"failed to parse custom kernel config {source}"
  | duplicate type source =>
    s!"custom kernel for type {type} defined twice (second definition in {source})"
  | workSize expression fault => s!"invalid work size expression '{expression}': {fault.message}"

/-- Kernel descriptors by operation type. -/
structure Overlay where
  kernels : NameMap KernelDescriptor
  deriving DecidableEq

namespace Overlay

/-- The overlay without kernels. -/
def empty : Overlay := ⟨.empty⟩

instance : Inhabited Overlay := ⟨empty⟩

/-- The descriptor for exactly this type. -/
def get? (o : Overlay) (type : String) : Option KernelDescriptor := o.kernels.get? type

/-- The number of types covered. -/
def size (o : Overlay) : Nat := o.kernels.size

/-- The types covered, ascending. -/
def types (o : Overlay) : List String := o.kernels.names

/-- Adds a descriptor. A type that is covered already is refused, unless `replace` is set. -/
def insert (o : Overlay) (k : KernelDescriptor) (source : String) (replace : Bool) :
    Except OverlayError Overlay :=
  if o.kernels.contains k.type && !replace then .error (.duplicate k.type source)
  else .ok ⟨o.kernels.insert k.type k⟩

/-- Adds descriptors until one is refused; what was added before it stays. -/
def insertAll (o : Overlay) (source : String) (replace : Bool) :
    List KernelDescriptor → Overlay × Option OverlayError
  | [] => (o, none)
  | k :: rest =>
    match o.insert k source replace with
    | .ok next => next.insertAll source replace rest
    | .error e => (o, some e)

/-- The descriptors of an overlay document. -/
def descriptors? (text : String) : Option (List KernelDescriptor) := do
  let v ← parse? text
  let r ← v.record? ["kernels"]
  r.defaulted 0 (Value.list? KernelDescriptor.ofValue?) []

/-- Loads a document; the answer is the number of its descriptors. -/
def load (o : Overlay) (text source : String) (replace : Bool) : Overlay × Except OverlayError Nat :=
  match descriptors? text with
  | none => (o, .error (.parse source))
  | some ks =>
    match o.insertAll source replace ks with
    | (next, none) => (next, .ok ks.length)
    | (next, some e) => (next, .error e)

/-- Loads the document in a file. A file that does not exist is an overlay without kernels. -/
def loadFile (o : Overlay) (files : Files) (path : String) (replace : Bool) :
    Overlay × Except OverlayError Nat :=
  match files.read path with
  | .text text => o.load text path replace
  | .missing => (o, .ok 0)
  | .unreadable => (o, .error (.io path))

theorem get?_insert {o next : Overlay} {k : KernelDescriptor} {source : String} {replace : Bool}
    (h : o.insert k source replace = .ok next) (type : String) :
    next.get? type = if type = k.type then some k else o.get? type := by
  simp only [insert] at h
  split at h
  · cases h
  · cases h; exact NameMap.get?_insert _ _ _ _

end Overlay

end TensorLowering
