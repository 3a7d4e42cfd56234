import CoreEngines.Registry.Creation
import CoreEngines.Thread.Access

/-!
Admission.  A context takes the staged threads of its registry and hands each to its manager, in
the order of their creation, and records the name that the manager gives it.
-/

namespace CoreEngines.Context

open Program

/-- The name of every admitted thread; managers that want names make their own. -/
def admittedName : String := ""

/-- Hand threads to a manager, one after the other. -/
def admitEach (manager : ManagerRef) : List (Ref .thread) → Program Unit
  | [] => return ()
  | thread :: rest => do
      let sched : SchedRef ← request (.schedule manager admittedName thread)
      let id : ThreadId ← perform (.thread thread .id)
      report (.threadAdmitted id sched)
      Thread.bind thread sched
      admitEach manager rest

/-- Admit all staged threads, and answer how many there were. -/
def admitStaged (context : Ref .context) : Program Nat := do
  let shape : ContextShape ← perform (.context context .shape)
  let threads ← Registry.takeStaged shape.registry
  if threads.isEmpty then
    return 0
  else
    admitEach shape.manager threads.toList
    report (.batchAdmitted shape.core threads.size)
    return threads.size

end CoreEngines.Context
