import CoreEngines.LocalStorage
import CoreEngines.Reference
import CoreEngines.ThreadId

/-!
Engine threads: what the engines record about a thread that some manager runs.
-/

namespace CoreEngines

/-- Where a thread is in its life.  The manager that runs the thread moves it along. -/
inductive ThreadStatus
  | empty
  | notStarted
  | running
  | paused
deriving DecidableEq, Repr, Inhabited

namespace ThreadStatus

def bits : ThreadStatus → UInt8
  | empty => 0
  | notStarted => 1
  | running => 2
  | paused => 3

/-- Every byte that names no other status reads as the empty one. -/
def ofBits : UInt8 → ThreadStatus
  | 1 => notStarted
  | 2 => running
  | 3 => paused
  | _ => empty

@[simp]
theorem ofBits_bits (status : ThreadStatus) : ofBits status.bits = status := by
  cases status <;> rfl

def inspect : ThreadStatus → String
  | empty => "Empty"
  | notStarted => "NotStarted"
  | running => "Running"
  | paused => "Paused"

def named? (text : String) : Option ThreadStatus :=
  [empty, notStarted, running, paused].find? (·.inspect == text)

end ThreadStatus

/-- A status in one shared byte, which any core may read. -/
structure StatusCell where
  byte : UInt8
deriving DecidableEq, Repr, Inhabited

namespace StatusCell

def holding (status : ThreadStatus) : StatusCell := ⟨status.bits⟩

def load (cell : StatusCell) : ThreadStatus := .ofBits cell.byte

@[simp]
theorem load_holding (status : ThreadStatus) : (holding status).load = status :=
  status.ofBits_bits

end StatusCell

/-- A thread of one engine.  `sched` is the manager's name for it, from its admission on. -/
structure Thread where
  id : ThreadId
  mailbox : Ref .mailbox
  status : StatusCell
  sched : Option SchedRef
  storage : LocalStorage
deriving Inhabited

namespace Thread

def new (id : ThreadId) (mailbox : Ref .mailbox) : Thread where
  id := id
  mailbox := mailbox
  status := .holding .empty
  sched := none
  storage := .empty

/-- What one access to a thread can do.  The storage belongs under its lock. -/
inductive Access
  | id
  | setStatus (status : ThreadStatus)
  /-- Record the manager's name for the thread, unless one is recorded already. -/
  | bind (sched : SchedRef)
  | readStorage
  | writeStorage (storage : LocalStorage)

/-- A binding answers whether it was the first. -/
abbrev Access.Answer : Access → Type
  | .id => ThreadId
  | .setStatus _ | .writeStorage _ => Unit
  | .bind _ => Bool
  | .readStorage => LocalStorage

def access (thread : Thread) : (access : Access) → access.Answer × Thread
  | .id => (thread.id, thread)
  | .setStatus status => ((), { thread with status := .holding status })
  | .bind sched =>
      match thread.sched with
      | none => (true, { thread with sched := some sched })
      | some _ => (false, thread)
  | .readStorage => (thread.storage, thread)
  | .writeStorage storage => ((), { thread with storage })

end Thread

end CoreEngines
