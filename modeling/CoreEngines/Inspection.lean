import CoreEngines.Engine.Table

/-!
Printed forms of the objects of a world.  An object that refers to others prints what it shows of
them with it.
-/

namespace CoreEngines.World

def threadId? (world : World) (thread : Ref .thread) : Option ThreadId :=
  (world.threadAt? thread).map (·.id)

def inspectHandle (world : World) (handle : Handle) : String :=
  let shown := (handle.thread?.bind world.threadId?).elim "empty" ThreadId.display
  "ThreadRef(" ++ shown ++ ")"

def inspectMessage (world : World) (message : Message) : String :=
  Text.record "Message"
    [⟨"kind", message.kind.inspect⟩,
     ⟨"sender", world.inspectHandle message.sender⟩,
     ⟨"data", message.payload.inspect⟩,
     ⟨"function", Text.optional (message.function.map FunctionRef.inspect)⟩,
     ⟨"recv_index", toString message.receiverIndex.toNat⟩,
     ⟨"reusable", Text.truth message.reusable⟩]

def inspectMailbox (world : World) (mailbox : Ref .mailbox) : String :=
  (world.mailboxAt? mailbox).elim "" Mailbox.inspect

def inspectThread (world : World) (thread : Ref .thread) : String :=
  (world.threadAt? thread).elim "" fun thread =>
    Text.openRecord "EngineThread"
      [⟨"id", thread.id.inspect⟩,
       ⟨"status", thread.status.load.inspect⟩,
       ⟨"sched", Text.optional (thread.sched.map SchedRef.inspect)⟩,
       ⟨"mailbox", world.inspectMailbox thread.mailbox⟩]

def inspectRegistry (world : World) (registry : Ref .registry) : String :=
  (world.registryAt? registry).elim "" fun registry =>
    Text.openRecord "ThreadRegistry"
      [⟨"engine", registry.core.inspect⟩,
       ⟨"len", toString registry.count⟩,
       ⟨"serial", (world.counterAt? registry.counter).elim "" SerialCounter.inspect⟩]

def inspectContext (world : World) (context : Ref .context) : String :=
  (world.contextAt? context).elim "" Context.inspect

def inspectEngine (world : World) (engine : Ref .engine) : String :=
  (world.engineAt? engine).elim "" fun engine =>
    Text.openRecord "Engine"
      [⟨"id", engine.shape.core.inspect⟩,
       ⟨"mode", engine.shape.mode.inspect⟩,
       ⟨"init", Text.truth engine.entered⟩,
       ⟨"threads", world.inspectRegistry engine.shape.registry⟩,
       ⟨"context", Text.optional (engine.context.value?.map world.inspectContext)⟩]

def inspectTable (world : World) (table : Table) : String :=
  Text.sequence (table.engines.toList.map world.inspectEngine)

end CoreEngines.World
