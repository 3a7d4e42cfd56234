import CoreEngines.Program

/-!
Access to threads: through handles, which may refer to none, and into their local storage, which
has a lock.
-/

namespace CoreEngines

open Program

/-- The thread that a handle must refer to. -/
def Handle.get (handle : Handle) : Program (Ref .thread) :=
  match handle with
  | .empty => raise .emptyHandle
  | .thread target => pure target

namespace Thread

/-- Record the manager's name for a thread, which happens once. -/
def bind (thread : Ref .thread) (sched : SchedRef) : Program Unit := do
  let first : Bool ← perform (.thread thread (.bind sched))
  if first then
    return ()
  else
    let id : ThreadId ← perform (.thread thread .id)
    raise (.admittedTwice id)

def setStatus (thread : Ref .thread) (status : ThreadStatus) : Program Unit :=
  perform (.thread thread (.setStatus status))

/-- Use a thread's local storage while nobody else does. -/
def withStorage {α : Type} (thread : Ref .thread) (use : LocalStorage → α × LocalStorage) :
    Program α :=
  locked (.storage thread) do
    let storage : LocalStorage ← perform (.thread thread .readStorage)
    let (answer, storage) := use storage
    perform (.thread thread (.writeStorage storage))
    return answer

end Thread

end CoreEngines
