import CoreEngines.CoreId
import CoreEngines.Reference
import CoreEngines.ThreadId

/-!
Callbacks: all that the engines ask of the world outside them, which is the processor, the script
host and the thread managers.  A callback may run any operation of the engines before it answers,
and may fail instead of answering.
-/

namespace CoreEngines

/-- How a manager ends a scheduling quantum. -/
inductive Quantum
  /-- There is more to run. -/
  | proceed
  | exit
deriving DecidableEq, Repr

def Quantum.inspect : Quantum → String
  | proceed => "Continue"
  | exit => "Exit"

/-- A question to the world outside. -/
inductive Callback
  /-- Which core runs the caller. -/
  | currentCore
  /-- Mask interrupts on this core, and tell whether they were enabled. -/
  | mask
  /-- Put the interrupt state back. -/
  | restore (previous : Bool)
  /-- Wait for the next interrupt. -/
  | pause
  /-- Stop this core for good. -/
  | halt
  | createManager (core : CoreId) (startup : Bool)
  | buildCache (core : CoreId)
  /-- Create a schedulable thread under a name. -/
  | schedule (manager : ManagerRef) (name : String) (thread : Ref .thread)
  | hasThreads (manager : ManagerRef)
  | runQuantum (manager : ManagerRef)
  | currentThread (manager : ManagerRef)
deriving DecidableEq, Repr

/-- What each callback answers; nobody comes back from a halt. -/
abbrev Callback.Answer : Callback → Type
  | currentCore => CoreId
  | mask => Bool
  | restore _ | pause => Unit
  | halt => Empty
  | createManager _ _ => ManagerRef
  | buildCache _ => CacheRef
  | schedule _ _ _ => SchedRef
  | hasThreads _ => Bool
  | runQuantum _ => Quantum
  | currentThread _ => Option Handle

end CoreEngines
