import CoreEngines.CoreId
import CoreEngines.Reference

/-!
Thread registries: every thread of one engine, and those of them that still wait for admission.
-/

namespace CoreEngines

/-- The threads of one engine in creation order, and those staged since the last drain.  `count`
is the length of the roster as last published to those who read it without the lock. -/
structure Registry where
  core : CoreId
  reserve : Nat
  counter : Ref .counter
  count : Nat
  roster : Array (Ref .thread)
  pending : Array (Ref .thread)
deriving DecidableEq, Inhabited

namespace Registry

def new (core : CoreId) (reserve : Nat) (counter : Ref .counter) : Registry where
  core := core
  reserve := reserve
  counter := counter
  count := 0
  roster := #[]
  pending := #[]

/-- The parts of a registry that never change. -/
structure Shape where
  core : CoreId
  reserve : Nat
  counter : Ref .counter
deriving DecidableEq

def shape (registry : Registry) : Shape :=
  ⟨registry.core, registry.reserve, registry.counter⟩

/-- What one access to a registry can do.  The lists belong under the lock. -/
inductive Access
  | shape
  /-- Read the published length of the roster. -/
  | peek
  /-- Record a new thread and stage it. -/
  | enroll (thread : Ref .thread)
  | publish (count : Nat)
  /-- Take the staged threads away. -/
  | detach
  | roster
deriving DecidableEq

/-- Enrolling answers the new length of the roster. -/
abbrev Access.Answer : Access → Type
  | .shape => Shape
  | .peek | .enroll _ => Nat
  | .publish _ => Unit
  | .detach | .roster => Array (Ref .thread)

def access (registry : Registry) : (access : Access) → access.Answer × Registry
  | .shape => (registry.shape, registry)
  | .peek => (registry.count, registry)
  | .enroll thread =>
      (registry.roster.size + 1,
       { registry with
         roster := registry.roster.push thread
         pending := registry.pending.push thread })
  | .publish count => ((), { registry with count })
  | .detach => (registry.pending, { registry with pending := #[] })
  | .roster => (registry.roster, registry)

end Registry

end CoreEngines
