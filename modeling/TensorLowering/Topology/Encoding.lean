import TensorLowering.Json.Printer
import TensorLowering.Primitive.Document
import TensorLowering.Primitive.Encoding
import TensorLowering.Topology.Basic

/-! # Topologies in bytes and in documents

A topology is written as the list of its primitives; its index is left out. The fingerprint of a
topology is the FNV-1a hash, in 64 bits, of its bytes. -/

namespace TensorLowering

/-- The start of the hash. -/
def fnvOffset : UInt64 := 0xcbf29ce484222325

/-- The factor of the hash. -/
def fnvPrime : UInt64 := 0x100000001b3

/-- The FNV-1a hash of bytes. -/
def fnv1a (bytes : List UInt8) : UInt64 :=
  bytes.foldl (fun hash b => (hash ^^^ b.toUInt64) * fnvPrime) fnvOffset

namespace Topology

open Json

/-- The bytes of a topology: the list of its primitives. -/
def encode (t : Topology) : List UInt8 := Encoding.list Encoding.primitive t.primitives

/-- The hash of the bytes of a topology. -/
def fingerprint (t : Topology) : UInt64 := fnv1a t.encode

/-- The record of a topology; scalars are decimals. -/
def toValue (t : Topology) : Value :=
  .object [("primitives", .array (t.primitives.map (Primitive.toValue .float32)))]

/-- The text of a topology, over several lines. -/
def toText (t : Topology) : String := pretty t.toValue

end Topology

end TensorLowering
