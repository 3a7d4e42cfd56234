import CoreEngines.CoreId
import CoreEngines.Text.Record

/-!
Thread identifiers: the core that owns a thread, and the serial its registry gave it.
-/

namespace CoreEngines

/-- A thread of one core's engine, told apart from its siblings by a serial. -/
structure ThreadId where
  core : CoreId
  serial : UInt64
deriving DecidableEq, Repr, Inhabited

namespace ThreadId

instance : Ord ThreadId where
  compare left right := (compare left.core right.core).then (compare left.serial right.serial)

/-- Core and serial in angle brackets, with a point between them. -/
def display (id : ThreadId) : String :=
  "<" ++ toString id.core.number.toNat ++ "." ++ toString id.serial.toNat ++ ">"

/-- An identifier is shown inside printed records as it is displayed. -/
def inspect (id : ThreadId) : String :=
  id.display

end ThreadId

/-- A thread manager's own name for a thread that it has admitted. -/
structure SchedRef where
  bits : UInt64
deriving DecidableEq, Repr

namespace SchedRef

instance : Ord SchedRef where
  compare left right := compare left.bits right.bits

def inspect (sched : SchedRef) : String :=
  Text.record "SchedRef" [⟨"bits", toString sched.bits.toNat⟩]

end SchedRef

end CoreEngines
