import CoreEngines.CoreId

/-!
Hosted processors.  On a hosted build each worker thread of the host plays one core: the core it
is bound to and its interrupt flag are its own, and no other worker can see or change them.
-/

namespace CoreEngines

/-- What one worker knows of itself.  A new worker plays core zero with interrupts enabled. -/
structure HostedCore where
  core : CoreId := ⟨0⟩
  enabled : Bool := true
deriving DecidableEq, Repr, Inhabited

namespace HostedCore

def bind (worker : HostedCore) (core : CoreId) : HostedCore :=
  { worker with core }

/-- Mask interrupts, and tell whether they were enabled. -/
def mask (worker : HostedCore) : Bool × HostedCore :=
  (worker.enabled, { worker with enabled := false })

def restore (worker : HostedCore) (previous : Bool) : HostedCore :=
  { worker with enabled := previous }

end HostedCore

end CoreEngines
