import CoreEngines.Config
import CoreEngines.OnceCell
import CoreEngines.Reference

/-!
Execution contexts: the half of an engine that runs threads.  A context ties a thread manager to
the registry whose threads it admits.
-/

namespace CoreEngines

/-- The parts of a context that never change. -/
structure ContextShape where
  core : CoreId
  startup : Bool
  admission : Admission
  registry : Ref .registry
  manager : ManagerRef
deriving DecidableEq

/-- A context, with its template cache and the number of timer interrupts seen so far. -/
structure Context where
  shape : ContextShape
  cache : OnceCell CacheRef
  ticks : UInt64
deriving DecidableEq

namespace Context

def new (shape : ContextShape) : Context :=
  ⟨shape, .vacant, 0⟩

/-- What one access to a context can do. -/
inductive Access
  | shape
  | claimCache
  | fillCache (cache : CacheRef)
  | abandonCache
  /-- Count one timer interrupt. -/
  | tick
deriving DecidableEq

abbrev Access.Answer : Access → Type
  | .shape => ContextShape
  | .claimCache => OnceCell.Claim CacheRef
  | .fillCache _ | .abandonCache | .tick => Unit

/-- No answer while another is building the cache that this access claims. -/
def access? (context : Context) : (access : Access) → Option (access.Answer × Context)
  | .shape => some (context.shape, context)
  | .claimCache => context.cache.claim?.map fun (claim, cache) => (claim, { context with cache })
  | .fillCache cache => some ((), { context with cache := context.cache.fill cache })
  | .abandonCache => some ((), { context with cache := context.cache.abandon })
  | .tick => some ((), { context with ticks := context.ticks + 1 })

def inspect (context : Context) : String :=
  Text.openRecord "ExecutionContext"
    [⟨"core", context.shape.core.inspect⟩,
     ⟨"startup_script", Text.truth context.shape.startup⟩,
     ⟨"admission", context.shape.admission.inspect⟩,
     ⟨"ticks", toString context.ticks.toNat⟩,
     ⟨"template_cache", Text.truth context.cache.value?.isSome⟩]

end Context

end CoreEngines
