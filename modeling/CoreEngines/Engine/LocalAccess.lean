import CoreEngines.Context.RunLoop

/-!
Thread-local storage of an engine: that of the thread its manager runs, or the engine's own
bootstrap storage for as long as it has no context.
-/

namespace CoreEngines

open Program

/-- The storage that is in use on an engine. -/
inductive StorageSlot
  | bootstrap (owner : Ref .engine)
  | thread (owner : Ref .thread)
deriving DecidableEq, Repr

/-- Use a storage while nobody else does. -/
def StorageSlot.use {α : Type} (slot : StorageSlot) (use : LocalStorage → α × LocalStorage) :
    Program α :=
  match slot with
  | .thread target => Thread.withStorage target use
  | .bootstrap engine =>
      locked (.bootstrap engine) do
        let storage : LocalStorage ← perform (.engine engine .readBootstrap)
        let (answer, storage) := use storage
        perform (.engine engine (.writeBootstrap storage))
        return answer

namespace Engine

/-- Find the storage in use.  Once there is a context, some thread must be running. -/
def storageSlot (engine : Ref .engine) : Program StorageSlot := do
  let context : Option (Ref .context) ← perform (.engine engine .context)
  match context with
  | none => return .bootstrap engine
  | some context =>
      let current ← Context.currentThread context
      match current with
      | some handle =>
          let thread ← handle.get
          return .thread thread
      | none =>
          let shape : EngineShape ← perform (.engine engine .shape)
          raise (.noThreadRunning shape.core)

def localGet (engine : Ref .engine) (key : UInt64) : Program (Option UInt64) := do
  let slot ← storageSlot engine
  slot.use (·.run (.get key))

def localSet (engine : Ref .engine) (key value : UInt64) : Program Unit := do
  let slot ← storageSlot engine
  let _ ← slot.use (·.run (.set key value))

end Engine

end CoreEngines
