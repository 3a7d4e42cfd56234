import CoreEngines.Engine.LocalAccess
import CoreEngines.Engine.Table
import CoreEngines.Interrupts
import CoreEngines.Mailbox.Delivery
import CoreEngines.Procedures

/-!
The operations of the engines, as data: what a flow of control can be told to run.
-/

namespace CoreEngines

/-- An operation on shared objects. -/
inductive Operation
  | makeCounter (first : UInt64)
  | claimSerial (counter : Ref .counter)
  | makeMailbox (reserve : Nat)
  | push (mailbox : Ref .mailbox) (message : Message)
  | pushFromInterrupt (mailbox : Ref .mailbox) (message : Message)
  | drain (mailbox : Ref .mailbox)
  | drainLocked (mailbox : Ref .mailbox)
  | capacity (mailbox : Ref .mailbox)
  | makeRegistry (core : CoreId) (reserve : Nat)
  | create (registry : Ref .registry)
  | takeStaged (registry : Ref .registry)
  | takeStagedLocked (registry : Ref .registry)
  | threads (registry : Ref .registry)
  | bind (thread : Ref .thread) (sched : SchedRef)
  | setStatus (thread : Ref .thread) (status : ThreadStatus)
  | storage (thread : Ref .thread) (command : LocalStorage.Command)
  | makeContext (core : CoreId) (startup : Bool) (admission : Admission)
      (registry : Ref .registry)
  | admitStaged (context : Ref .context)
  | run (context : Ref .context)
  | buildCache (context : Ref .context)
  | tick (context : Ref .context)
  | currentThread (context : Ref .context)
  | buildTable (config : Config) (modes : List Mode)
  | currentEngine (table : Table)
  | enter (engine : Ref .engine)
  | timerTick (engine : Ref .engine)
  | requireContext (engine : Ref .engine)
  | localGet (engine : Ref .engine) (key : UInt64)
  | localSet (engine : Ref .engine) (key value : UInt64)
  | openScope
  | closeScope (scope : MaskScope)

namespace Operation

/-- What an operation returns. -/
abbrev Reply : Operation → Type
  | makeCounter _ => Ref .counter
  | claimSerial _ => UInt64
  | makeMailbox _ => Ref .mailbox
  | push _ _ | pushFromInterrupt _ _ => Unit
  | drain _ | drainLocked _ => Array Message
  | capacity _ => Nat
  | makeRegistry _ _ => Ref .registry
  | create _ => Ref .thread
  | takeStaged _ | takeStagedLocked _ | threads _ => Array (Ref .thread)
  | bind _ _ | setStatus _ _ => Unit
  | storage _ _ => Option UInt64
  | makeContext _ _ _ _ => Ref .context
  | admitStaged _ => Nat
  | run _ | buildCache _ | tick _ => Unit
  | currentThread _ => Option Handle
  | buildTable _ _ => Table
  | currentEngine _ => Ref .engine
  | enter _ | timerTick _ => Unit
  | requireContext _ => Ref .context
  | localGet _ _ => Option UInt64
  | localSet _ _ _ => Unit
  | openScope => MaskScope
  | closeScope _ => Unit

/-- The program that an operation runs. -/
def program : (operation : Operation) → Program operation.Reply
  | makeCounter first => Program.perform (.newCounter ⟨first⟩)
  | claimSerial counter => SerialCounter.claim counter
  | makeMailbox reserve => Mailbox.make reserve
  | push mailbox message => Mailbox.push mailbox message
  | pushFromInterrupt mailbox message => Mailbox.pushFromInterrupt mailbox message
  | drain mailbox => Mailbox.drain mailbox
  | drainLocked mailbox => Mailbox.drainLocked mailbox
  | capacity mailbox => Mailbox.capacity mailbox
  | makeRegistry core reserve => Registry.make core reserve
  | create registry => Registry.create registry
  | takeStaged registry => Registry.takeStaged registry
  | takeStagedLocked registry => Registry.takeStagedLocked registry
  | threads registry => Registry.threads registry
  | bind thread sched => Thread.bind thread sched
  | setStatus thread status => Thread.setStatus thread status
  | storage thread command => Thread.withStorage thread (·.run command)
  | makeContext core startup admission registry => Context.make core startup admission registry
  | admitStaged context => Context.admitStaged context
  | run context => Context.run context
  | buildCache context => Context.buildCache context
  | tick context => Context.tick context
  | currentThread context => Context.currentThread context
  | buildTable config modes => Table.build config modes
  | currentEngine table => table.current
  | enter engine => Engine.enter engine
  | timerTick engine => Engine.timerTick engine
  | requireContext engine => Engine.requireContext engine
  | localGet engine key => Engine.localGet engine key
  | localSet engine key value => Engine.localSet engine key value
  | openScope => MaskScope.opened
  | closeScope scope => scope.close

end Operation

end CoreEngines
