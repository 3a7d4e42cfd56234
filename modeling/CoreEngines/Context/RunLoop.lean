import CoreEngines.Context.Admitting

/-!
The life of a context: it is built around the manager that the host makes for its core, its run
loop hands quanta to the manager until the manager exits, and its template cache is built when a
thread first asks for it.
-/

namespace CoreEngines.Context

open Program

/-- Build a context on a registry. -/
def make (core : CoreId) (startup : Bool) (admission : Admission) (registry : Ref .registry) :
    Program (Ref .context) := do
  let manager : ManagerRef ← request (.createManager core startup)
  report (.contextBuilt core startup)
  perform (.newContext { core, startup, admission, registry, manager })

/-- One quantum, and what follows it: after the last one nothing, else an admission if every
quantum is to have one, and the next quantum. -/
def loopStep (context : Ref .context) : Program Unit := do
  let shape : ContextShape ← perform (.context context .shape)
  let quantum : Quantum ← request (.runQuantum shape.manager)
  match quantum with
  | .exit => return ()
  | .proceed =>
      match shape.admission with
      | .startup => invoke (.runLoop context)
      | .everyQuantum => do
          let _ ← admitStaged context
          invoke (.runLoop context)

/-- Admit what is staged, then run the manager until it exits. -/
def run (context : Ref .context) : Program Unit := do
  let _ ← admitStaged context
  let shape : ContextShape ← perform (.context context .shape)
  let ready : Bool ← request (.hasThreads shape.manager)
  if ready then
    report (.loopStarted shape.core shape.admission)
    invoke (.runLoop context)
    report (.loopFinished shape.core)
  else
    raise (.nothingToRun shape.core)

/-- Build the template cache unless it is there.  A build that fails leaves it to the next. -/
def buildCache (context : Ref .context) : Program Unit := do
  let claim : OnceCell.Claim CacheRef ← perform (.context context .claimCache)
  match claim with
  | .ready _ => return ()
  | .granted =>
      let shape : ContextShape ← perform (.context context .shape)
      report (.cacheRequested shape.core)
      (request (.buildCache shape.core)).andThen fun
        | .ok cache => perform (.context context (.fillCache cache))
        | .error failure => do
            perform (.context context .abandonCache)
            fail failure

def tick (context : Ref .context) : Program Unit :=
  perform (.context context .tick)

def currentThread (context : Ref .context) : Program (Option Handle) := do
  let shape : ContextShape ← perform (.context context .shape)
  request (.currentThread shape.manager)

end CoreEngines.Context
