import CoreEngines.Config
import CoreEngines.ThreadId

/-!
Trace events: what the engines report about themselves, each with its level and its fields.
-/

namespace CoreEngines

/-- Something worth reporting. -/
inductive TraceEvent
  | tableBuilt (cores : Nat)
  | engineEntered (core : CoreId) (mode : Mode)
  | contextBuilt (core : CoreId) (startup : Bool)
  | cacheRequested (core : CoreId)
  | threadCreated (thread : ThreadId)
  | threadAdmitted (thread : ThreadId) (sched : SchedRef)
  | batchAdmitted (core : CoreId) (count : Nat)
  | loopStarted (core : CoreId) (admission : Admission)
  | loopFinished (core : CoreId)
  | mailboxDrained (count : Nat)
deriving DecidableEq, Repr

namespace TraceEvent

/-- Entries are information, single threads and drains are detail, the rest lies between. -/
def level : TraceEvent → TraceLevel
  | engineEntered _ _ => .info
  | threadCreated _ | threadAdmitted _ _ | mailboxDrained _ => .trace
  | _ => .debug

def message : TraceEvent → String
  | tableBuilt _ => "engine table created"
  | engineEntered _ _ => "engine entered"
  | contextBuilt _ _ => "execution context created"
  | cacheRequested _ => "building template cache"
  | threadCreated _ => "thread created"
  | threadAdmitted _ _ => "thread admitted"
  | batchAdmitted _ _ => "threads admitted"
  | loopStarted _ _ => "run loop started"
  | loopFinished _ => "run loop finished"
  | mailboxDrained _ => "mailbox drained"

def fields : TraceEvent → List (String × String)
  | tableBuilt cores => [("cores", toString cores)]
  | engineEntered core mode => [("core", core.display), ("mode", mode.display)]
  | contextBuilt core startup =>
      [("core", core.display), ("startup_script", Text.truth startup)]
  | cacheRequested core => [("core", core.display)]
  | threadCreated thread => [("thread", thread.display)]
  | threadAdmitted thread sched =>
      [("thread", thread.display), ("sched", toString sched.bits.toNat)]
  | batchAdmitted core count => [("core", core.display), ("count", toString count)]
  | loopStarted core admission =>
      [("core", core.display), ("admission", admission.inspect)]
  | loopFinished core => [("core", core.display)]
  | mailboxDrained count => [("count", toString count)]

end TraceEvent

end CoreEngines
