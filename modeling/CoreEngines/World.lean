import CoreEngines.Context
import CoreEngines.Engine
import CoreEngines.Mailbox.Basic
import CoreEngines.Registry
import CoreEngines.Serial
import CoreEngines.Thread

/-!
The world of shared objects.  Everything that one flow of control can see of another happens
through it, in single actions: an action looks at or changes one object, or takes or frees one
lock, or adds an object.
-/

namespace CoreEngines

/-- The four kinds of lock. -/
inductive Lock
  /-- Guards the queue of a mailbox. -/
  | queue (mailbox : Ref .mailbox)
  /-- Guards both lists of a registry. -/
  | roster (registry : Ref .registry)
  /-- Guards the local storage of a thread. -/
  | storage (thread : Ref .thread)
  /-- Guards the bootstrap storage of an engine. -/
  | bootstrap (engine : Ref .engine)
deriving DecidableEq, Repr

/-- All shared objects, each kind in the order of creation, and the locks that are held. -/
structure World where
  counters : Array SerialCounter := #[]
  mailboxes : Array Mailbox := #[]
  threads : Array Thread := #[]
  registries : Array Registry := #[]
  contexts : Array Context := #[]
  engines : Array Engine := #[]
  held : List Lock := []

/-- One indivisible access to the world. -/
inductive Action
  | counter (target : Ref .counter) (access : SerialCounter.Access)
  | mailbox (target : Ref .mailbox) (access : Mailbox.Access)
  | thread (target : Ref .thread) (access : Thread.Access)
  | registry (target : Ref .registry) (access : Registry.Access)
  | context (target : Ref .context) (access : Context.Access)
  | engine (target : Ref .engine) (access : Engine.Access)
  | acquire (lock : Lock)
  | release (lock : Lock)
  | newCounter (counter : SerialCounter)
  /-- Make a mailbox with reserved slots, if they can be had. -/
  | newMailbox (reserve : Nat)
  | newThread (id : ThreadId) (mailbox : Ref .mailbox)
  | newRegistry (core : CoreId) (reserve : Nat) (counter : Ref .counter)
  | newContext (shape : ContextShape)
  | newEngine (shape : EngineShape)

abbrev Action.Answer : Action → Type
  | counter _ access => access.Answer
  | mailbox _ access => access.Answer
  | thread _ access => access.Answer
  | registry _ access => access.Answer
  | context _ access => access.Answer
  | engine _ access => access.Answer
  | acquire _ | release _ => Unit
  | newCounter _ => Ref .counter
  | newMailbox _ => Option (Ref .mailbox)
  | newThread _ _ => Ref .thread
  | newRegistry _ _ _ => Ref .registry
  | newContext _ => Ref .context
  | newEngine _ => Ref .engine

namespace World

def counterAt? (world : World) (target : Ref .counter) : Option SerialCounter :=
  world.counters[target.index]?

def mailboxAt? (world : World) (target : Ref .mailbox) : Option Mailbox :=
  world.mailboxes[target.index]?

def threadAt? (world : World) (target : Ref .thread) : Option Thread :=
  world.threads[target.index]?

def registryAt? (world : World) (target : Ref .registry) : Option Registry :=
  world.registries[target.index]?

def contextAt? (world : World) (target : Ref .context) : Option Context :=
  world.contexts[target.index]?

def engineAt? (world : World) (target : Ref .engine) : Option Engine :=
  world.engines[target.index]?

def mailboxOf? (world : World) (thread : Ref .thread) : Option (Ref .mailbox) :=
  (world.threadAt? thread).map (·.mailbox)

def registryOf? (world : World) (engine : Ref .engine) : Option (Ref .registry) :=
  (world.engineAt? engine).map (·.shape.registry)

def contextOf? (world : World) (engine : Ref .engine) : Option (Ref .context) :=
  (world.engineAt? engine).bind (·.context.value?)

def ticksOf? (world : World) (engine : Ref .engine) : Option UInt64 :=
  ((world.contextOf? engine).bind world.contextAt?).map (·.ticks)

def threadCount? (world : World) (registry : Ref .registry) : Option Nat :=
  (world.registryAt? registry).map (·.count)

/-- Take an object out of an array, and leave a default one in its place. -/
@[noinline] def takeAt {σ : Type} [Inhabited σ] (objects : Array σ) (index : Nat)
    (inside : index < objects.size) : σ × Array σ :=
  objects.swapAt index default

/-- Look at or change the object at `index`, if there is one.  The array does not hold the object
meanwhile, so that a long list in it is changed in place and not copied. -/
@[specialize] def accessAt? {σ α : Type} [Inhabited σ] (objects : Array σ) (index : Nat)
    (access : σ → α × σ) : Option (α × Array σ) :=
  if inside : index < objects.size then
    let (object, others) := takeAt objects index inside
    let (answer, object) := access object
    some (answer, others.setIfInBounds index object)
  else none

theorem accessAt?_eq {σ α : Type} [Inhabited σ] (objects : Array σ) (index : Nat)
    (access : σ → α × σ) :
    accessAt? objects index access = objects[index]?.map fun object =>
      ((access object).1, objects.setIfInBounds index (access object).2) := by
  by_cases inside : index < objects.size <;>
    simp [accessAt?, takeAt, inside, Array.setIfInBounds]

/-- Whether an action has to wait: for a lock that is held, or a value that is being built. -/
def waits (world : World) : Action → Bool
  | .context target access => (world.contextAt? target).any fun context =>
      (context.access? access).isNone
  | .engine target access => (world.engineAt? target).any fun engine =>
      (engine.access? access).isNone
  | .acquire lock => lock ∈ world.held
  | _ => false

/-- Do one action.  There is no answer while the action has to wait, nor ever for a reference to
nothing. -/
def perform? (world : World) : (action : Action) → Option (action.Answer × World)
  | .counter target access =>
      (accessAt? world.counters target.index (·.access access)).map fun (answer, counters) =>
        (answer, { world with counters })
  | .mailbox target access =>
      (accessAt? world.mailboxes target.index (·.access access)).map fun (answer, mailboxes) =>
        (answer, { world with mailboxes })
  | .thread target access =>
      (accessAt? world.threads target.index (·.access access)).map fun (answer, threads) =>
        (answer, { world with threads })
  | .registry target access =>
      (accessAt? world.registries target.index (·.access access)).map fun (answer, registries) =>
        (answer, { world with registries })
  | .context target access =>
      (world.contextAt? target).bind fun context =>
        (context.access? access).map fun (answer, context) =>
          (answer, { world with contexts := world.contexts.setIfInBounds target.index context })
  | .engine target access =>
      (world.engineAt? target).bind fun engine =>
        (engine.access? access).map fun (answer, engine) =>
          (answer, { world with engines := world.engines.setIfInBounds target.index engine })
  | .acquire lock =>
      if lock ∈ world.held then none else some ((), { world with held := lock :: world.held })
  | .release lock => some ((), { world with held := world.held.erase lock })
  | .newCounter counter =>
      some (⟨world.counters.size⟩, { world with counters := world.counters.push counter })
  | .newMailbox reserve =>
      if Slots.allocatable reserve then
        some (some ⟨world.mailboxes.size⟩,
          { world with mailboxes := world.mailboxes.push (.new reserve) })
      else some (none, world)
  | .newThread id mailbox =>
      some (⟨world.threads.size⟩, { world with threads := world.threads.push (.new id mailbox) })
  | .newRegistry core reserve counter =>
      some (⟨world.registries.size⟩,
        { world with registries := world.registries.push (.new core reserve counter) })
  | .newContext shape =>
      some (⟨world.contexts.size⟩, { world with contexts := world.contexts.push (.new shape) })
  | .newEngine shape =>
      some (⟨world.engines.size⟩, { world with engines := world.engines.push (.new shape) })

end World

end CoreEngines
