import TensorLowering.Fault
import TensorLowering.Topology.Basic

/-! # Schedules

A schedule lists the primitives so that each comes after everything that it reads. Primitives wait in
a queue from the moment at which their last dependency is scheduled; those without dependencies wait
from the start, in insertion order.

## Implementation notes

Every primitive has a counter of the distinct primitives that it still waits for. Scheduling a
primitive decrements the counters of its users; a counter that is zero already cannot be decremented,
and the attempt would be an abort. Each turn schedules one primitive, so as many turns as there are
primitives are enough. -/

namespace TensorLowering

namespace Topology

/-- The positions that a primitive reads from, each once. -/
def dependencies (t : Topology) (p : Primitive) : List Nat :=
  (p.inputs.filterMap fun s => t.position? s.id).eraseDups

/-- For each primitive the positions that it reads from. -/
def dependencyTable (t : Topology) : List (List Nat) := t.primitives.map t.dependencies

end Topology

/-- The state of a scheduling in progress. -/
structure Scheduling where
  /-- For each primitive, the number of dependencies that are not scheduled. -/
  pending : List Nat
  /-- The primitives that wait for nothing, first come first served. -/
  ready : List Nat
  /-- What is scheduled, in order. -/
  done : List Nat
  deriving DecidableEq, Repr

namespace Scheduling

/-- The state before anything is scheduled. -/
def start (table : List (List Nat)) : Scheduling :=
  let pending := table.map List.length
  ⟨pending, (List.range table.length).filter fun position => pending[position]? = some 0, []⟩

/-- The positions that read from `position`, ascending. -/
def users (table : List (List Nat)) (position : Nat) : List Nat :=
  (List.range table.length).filter fun user => (table.getD user []).contains position

/-- Takes one dependency off a primitive, which becomes ready with the last one. -/
def release (s : Scheduling) (user : Nat) : Option Scheduling :=
  match s.pending[user]? with
  | some (count + 1) =>
    some { s with
      pending := s.pending.set user count
      ready := if count = 0 then s.ready ++ [user] else s.ready }
  | _ => none

/-- Schedules ready primitives for at most `turns` turns. -/
def run (table : List (List Nat)) : Nat → Scheduling → Option Scheduling
  | 0, s => some s
  | turns + 1, s =>
    match s.ready with
    | [] => some s
    | position :: ready => do
      let next ← (users table position).foldlM release { s with ready := ready, done := s.done ++ [position] }
      run table turns next

end Scheduling

namespace Topology

/-- The primitives in an order in which each comes after everything it reads. -/
def schedule (t : Topology) : Outcome TopologyError (List Primitive) := do
  match t.validate with
  | .error e => .fail e
  | .ok () => pure ()
  let table := t.dependencyTable
  let final ← Outcome.ofOption (Scheduling.run table t.size (.start table))
  if final.done.length ≠ t.size then .fail (.cycle (t.size - final.done.length))
  else .ofOption (final.done.mapM (t.primitives[·]?))

end Topology

end TensorLowering
