import CoreEngines.Proofs.Discipline

/-!
Inquiries.  An operation asks the world outside about few matters, and about the others never: most
ask it nothing at all, and template caches are the matter of one operation alone.
-/

namespace CoreEngines

/-- What a callback is about. -/
inductive Matter
  /-- The interrupt flag of the core. -/
  | interrupts
  /-- Which core it is. -/
  | location
  /-- Waiting, or stopping for good. -/
  | rest
  /-- The making of a manager. -/
  | manager
  /-- The making of a template cache, and its place in the context. -/
  | template
  /-- The threads of a manager. -/
  | schedule
deriving DecidableEq

@[simp]
def Callback.matter : Callback → Matter
  | mask | restore _ => .interrupts
  | currentCore => .location
  | pause | halt => .rest
  | createManager _ _ => .manager
  | buildCache _ => .template
  | schedule _ _ _ | hasThreads _ | runQuantum _ | currentThread _ => .schedule

@[simp]
def Procedure.matters : Procedure → List Matter
  | claimSerial _ _ => []
  | runLoop _ => [.schedule]
  | idle => [.rest]

@[simp]
def Operation.matters : Operation → List Matter
  | push _ _ | drain _ | drainLocked _ | capacity _ | openScope | closeScope _ => [.interrupts]
  | makeContext _ _ _ _ => [.manager]
  | admitStaged _ | run _ | currentThread _ | localGet _ _ | localSet _ _ _ => [.schedule]
  | buildCache _ => [.template]
  | currentEngine _ => [.location]
  | enter _ => [.location, .rest, .manager, .schedule]
  | _ => []

/-- Whether a happening asks about nothing else, and leaves template caches alone unless they are
among these matters. -/
@[simp]
def Happening.Concerns (matters : List Matter) : Happening → Prop
  | .acted (.context _ .claimCache) _ | .acted (.context _ (.fillCache _)) _
  | .acted (.context _ .abandonCache) _ => .template ∈ matters
  | .answered callback _ => callback.matter ∈ matters
  | .called procedure => procedure.matters ⊆ matters
  | _ => True

def Program.Concerns {α : Type} (program : Program α) (matters : List Matter) : Prop :=
  program.Within (Happening.Concerns matters)

theorem Happening.Concerns.mono {matters matters' : List Matter} (hmatters : matters ⊆ matters')
    (happening : Happening) (hconcerns : happening.Concerns matters) :
    happening.Concerns matters' := by
  unfold Concerns at hconcerns ⊢
  split
  · exact hmatters hconcerns
  · exact hmatters hconcerns
  · exact hmatters hconcerns
  · exact hmatters hconcerns
  · exact List.Subset.trans hconcerns hmatters
  · trivial

open Program

theorem Program.Concerns.mono {α : Type} {program : Program α} {matters matters' : List Matter}
    (hprogram : program.Concerns matters) (hmatters : matters ⊆ matters') :
    program.Concerns matters' :=
  Within.mono hprogram (Happening.Concerns.mono hmatters)

theorem Program.Concerns.of_nil {α : Type} {program : Program α} {matters : List Matter}
    (hprogram : program.Concerns []) : program.Concerns matters :=
  hprogram.mono (List.nil_subset matters)

namespace SerialCounter

theorem claimStep_concerns (counter : Ref .counter) (seen : UInt64) :
    (claimStep counter seen).Concerns [] := by
  have hagain : ∀ found, (invoke (.claimSerial counter found)).Concerns [] :=
    fun found => Within.invoke (by simp)
  apply Within.bind (Within.chance (by simp))
  intro spurious
  split
  · exact Within.bind (Within.perform (by simp)) hagain
  · apply Within.bind (Within.perform (by simp))
    intro outcome
    split
    · exact Within.pure _
    · exact hagain _

theorem claim_concerns (counter : Ref .counter) : (claim counter).Concerns [] :=
  Within.bind (Within.perform (by simp)) fun _ => Within.invoke (by simp)

end SerialCounter

namespace Mailbox

variable (place : Ref .mailbox)

theorem make_concerns (reserve : Nat) : (make reserve).Concerns [] := by
  apply Within.bind (Within.perform (by simp))
  intro made
  split
  · exact Within.pure _
  · exact Within.fail _

theorem push_concerns (message : Message) : (push place message).Concerns [.interrupts] :=
  Within.masked (Within.locked (Within.bind (Within.perform (by simp)) fun _ =>
    Within.perform (by simp)) (by simp) (by simp)) (by simp) (by simp)

theorem pushFromInterrupt_concerns (message : Message) :
    (pushFromInterrupt place message).Concerns [] := by
  refine Within.locked (Within.bind (Within.perform (by simp)) ?_) (by simp) (by simp)
  intro accepted
  split <;> exact Within.perform (by simp)

theorem detachAll_concerns : (detachAll place).Concerns [] := by
  apply Within.bind (Within.perform (by simp))
  intro length
  split
  · exact Within.pure _
  · apply Within.bind (Within.perform (by simp))
    intro messages
    apply Within.bind (Within.perform (by simp))
    intro replenished
    split
    · exact Within.bind (Within.perform (by simp)) fun _ => Within.pure _
    · exact Within.fail _

theorem drainLocked_concerns : (drainLocked place).Concerns [.interrupts] := by
  apply Within.bind (Within.masked (Within.locked (detachAll_concerns place).of_nil
    (by simp) (by simp)) (by simp) (by simp))
  intro messages
  split
  · exact Within.pure _
  · exact Within.bind (Within.report (by simp)) fun _ => Within.pure _

theorem drain_concerns : (drain place).Concerns [.interrupts] := by
  apply Within.bind (Within.perform (by simp))
  intro queued
  split
  · exact Within.pure _
  · exact drainLocked_concerns place

theorem capacity_concerns : (capacity place).Concerns [.interrupts] :=
  Within.masked (Within.locked (Within.perform (by simp)) (by simp) (by simp))
    (by simp) (by simp)

end Mailbox

namespace Registry

variable (registry : Ref .registry)

theorem make_concerns (core : CoreId) (reserve : Nat) : (make core reserve).Concerns [] :=
  Within.bind (Within.perform (by simp)) fun _ => Within.perform (by simp)

theorem create_concerns : (create registry).Concerns [] := by
  apply Within.bind (Within.perform (by simp))
  intro shape
  apply Within.bind (SerialCounter.claim_concerns _)
  intro serial
  apply Within.bind (Mailbox.make_concerns _)
  intro mailbox
  apply Within.bind (Within.perform (by simp))
  intro thread
  refine Within.bind (Within.locked ?_ (by simp) (by simp)) fun _ => ?_
  · exact Within.bind (Within.perform (by simp)) fun _ => Within.perform (by simp)
  · exact Within.bind (Within.report (by simp)) fun _ => Within.pure _

theorem takeStagedLocked_concerns : (takeStagedLocked registry).Concerns [] :=
  Within.locked (Within.perform (by simp)) (by simp) (by simp)

theorem takeStaged_concerns : (takeStaged registry).Concerns [] := by
  apply Within.bind (Within.perform (by simp))
  intro count
  split
  · exact Within.pure _
  · exact takeStagedLocked_concerns registry

end Registry

theorem Handle.get_concerns (handle : Handle) : handle.get.Concerns [] := by
  cases handle
  · exact Within.raise _
  · exact Within.pure _

namespace Thread

theorem bind_concerns (thread : Ref .thread) (sched : SchedRef) :
    (bind thread sched).Concerns [] := by
  apply Within.bind (Within.perform (by simp))
  intro first
  split
  · exact Within.pure _
  · exact Within.bind (Within.perform (by simp)) fun _ => Within.raise _

theorem withStorage_concerns {α : Type} (thread : Ref .thread)
    (use : LocalStorage → α × LocalStorage) : (withStorage thread use).Concerns [] := by
  refine Within.locked (Within.bind (Within.perform (by simp)) ?_) (by simp) (by simp)
  exact fun _ => Within.bind (Within.perform (by simp)) fun _ => Within.pure _

end Thread

namespace Context

theorem admitEach_concerns (manager : ManagerRef) (threads : List (Ref .thread)) :
    (admitEach manager threads).Concerns [.schedule] := by
  induction threads with
  | nil => exact Within.pure _
  | cons thread rest ih =>
      apply Within.bind (Within.request (by simp))
      intro sched
      apply Within.bind (Within.perform (by simp))
      intro id
      apply Within.bind (Within.report (by simp))
      intro _
      exact Within.bind (Thread.bind_concerns thread sched).of_nil fun _ => ih

theorem admitStaged_concerns (context : Ref .context) :
    (admitStaged context).Concerns [.schedule] := by
  apply Within.bind (Within.perform (by simp))
  intro shape
  apply Within.bind (Registry.takeStaged_concerns _).of_nil
  intro threads
  split
  · exact Within.pure _
  · apply Within.bind (admitEach_concerns _ _)
    intro _
    exact Within.bind (Within.report (by simp)) fun _ => Within.pure _

theorem make_concerns (core : CoreId) (startup : Bool) (admission : Admission)
    (registry : Ref .registry) : (make core startup admission registry).Concerns [.manager] := by
  apply Within.bind (Within.request (by simp))
  intro manager
  exact Within.bind (Within.report (by simp)) fun _ => Within.perform (by simp)

theorem loopStep_concerns (context : Ref .context) : (loopStep context).Concerns [.schedule] := by
  have hagain : (invoke (.runLoop context)).Concerns [.schedule] := Within.invoke (by simp)
  apply Within.bind (Within.perform (by simp))
  intro shape
  apply Within.bind (Within.request (by simp))
  intro quantum
  split
  · exact Within.pure _
  · split
    · exact hagain
    · exact Within.bind (admitStaged_concerns context) fun _ => hagain

theorem run_concerns (context : Ref .context) : (run context).Concerns [.schedule] := by
  apply Within.bind (admitStaged_concerns context)
  intro _
  apply Within.bind (Within.perform (by simp))
  intro shape
  apply Within.bind (Within.request (by simp))
  intro ready
  split
  · apply Within.bind (Within.report (by simp))
    intro _
    exact Within.bind (Within.invoke (by simp)) fun _ => Within.report (by simp)
  · exact Within.raise _

theorem buildCache_concerns (context : Ref .context) :
    (buildCache context).Concerns [.template] := by
  apply Within.bind (Within.perform (by simp))
  intro claim
  split
  · exact Within.pure _
  · apply Within.bind (Within.perform (by simp))
    intro shape
    apply Within.bind (Within.report (by simp))
    intro _
    apply Within.andThen (Within.request (by simp))
    intro built
    split
    · exact Within.perform (by simp)
    · exact Within.bind (Within.perform (by simp)) fun _ => Within.fail _

theorem currentThread_concerns (context : Ref .context) :
    (currentThread context).Concerns [.schedule] :=
  Within.bind (Within.perform (by simp)) fun _ => Within.request (by simp)

end Context

namespace Table

theorem makeEngine_concerns (config : Config) (core : CoreId) (mode : Mode) :
    (makeEngine config core mode).Concerns [] :=
  Within.bind (Registry.make_concerns core _) fun _ => Within.perform (by simp)

theorem makeEngines_concerns (config : Config) (first : UInt32) (modes : List Mode) :
    (makeEngines config first modes).Concerns [] := by
  induction modes generalizing first with
  | nil => exact Within.pure _
  | cons mode modes ih =>
      apply Within.bind (makeEngine_concerns config _ mode)
      intro engine
      exact Within.bind (ih _) fun engines => Within.pure _

theorem build_concerns (config : Config) (modes : List Mode) :
    (build config modes).Concerns [] := by
  unfold build
  split
  · exact Within.raise _
  · apply Within.bind (makeEngines_concerns config 0 _)
    intro engines
    exact Within.bind (Within.report (by simp)) fun _ => Within.pure _

theorem current_concerns (table : Table) : table.current.Concerns [.location] := by
  apply Within.bind (Within.request (by simp))
  intro core
  split
  · exact Within.pure _
  · exact Within.raise _

end Table

namespace Engine

theorem makeContext_concerns (engine : Ref .engine) (core : CoreId) (shape : EngineShape) :
    (makeContext engine core shape).Concerns [.manager] := by
  apply Within.bind (Within.perform (by simp))
  intro claim
  split
  · exact Within.pure _
  · apply Within.andThen (Context.make_concerns _ _ _ _)
    intro made
    split
    · exact Within.bind (Within.perform (by simp)) fun _ => Within.pure _
    · exact Within.bind (Within.perform (by simp)) fun _ => Within.fail _

theorem idleStep_concerns : idleStep.Concerns [.rest] :=
  Within.bind (Within.request (by simp)) fun _ => Within.invoke (by simp)

theorem operate_concerns (engine : Ref .engine) (core : CoreId) (shape : EngineShape) :
    (operate engine core shape).Concerns [.location, .rest, .manager, .schedule] := by
  unfold operate
  split
  · exact Within.bind (Within.request (by simp)) fun never => nomatch never
  · exact Within.invoke (by simp)
  · exact Within.bind ((makeContext_concerns engine core shape).mono (by simp)) fun context =>
      (Context.run_concerns context).mono (by simp)

theorem enter_concerns (engine : Ref .engine) :
    (enter engine).Concerns [.location, .rest, .manager, .schedule] := by
  apply Within.bind (Within.perform (by simp))
  intro shape
  apply Within.bind (Within.perform (by simp))
  intro entered
  split
  · exact Within.raise _
  · apply Within.bind (Within.perform (by simp))
    intro context
    split
    · exact Within.raise _
    · apply Within.bind (Within.request (by simp))
      intro core
      split
      · exact Within.bind (Within.report (by simp)) fun _ => operate_concerns engine core shape
      · exact Within.raise _

theorem timerTick_concerns (engine : Ref .engine) : (timerTick engine).Concerns [] := by
  apply Within.bind (Within.perform (by simp))
  intro context
  split
  · exact Within.perform (by simp)
  · exact Within.pure _

theorem requireContext_concerns (engine : Ref .engine) : (requireContext engine).Concerns [] := by
  apply Within.bind (Within.perform (by simp))
  intro context
  split
  · exact Within.pure _
  · exact Within.bind (Within.perform (by simp)) fun _ => Within.raise _

theorem use_concerns {α : Type} (slot : StorageSlot) (use : LocalStorage → α × LocalStorage) :
    (slot.use use).Concerns [] := by
  cases slot with
  | thread target => exact Thread.withStorage_concerns target use
  | bootstrap engine =>
      refine Within.locked (Within.bind (Within.perform (by simp)) ?_) (by simp) (by simp)
      exact fun _ => Within.bind (Within.perform (by simp)) fun _ => Within.pure _

theorem storageSlot_concerns (engine : Ref .engine) :
    (storageSlot engine).Concerns [.schedule] := by
  apply Within.bind (Within.perform (by simp))
  intro context
  split
  · exact Within.pure _
  · apply Within.bind (Context.currentThread_concerns _)
    intro current
    split
    · exact Within.bind (Handle.get_concerns _).of_nil fun _ => Within.pure _
    · exact Within.bind (Within.perform (by simp)) fun _ => Within.raise _

end Engine

theorem Procedure.code_concerns (procedure : Procedure) :
    procedure.code.Concerns procedure.matters := by
  cases procedure with
  | claimSerial counter seen => exact SerialCounter.claimStep_concerns counter seen
  | runLoop context => exact Context.loopStep_concerns context
  | idle => exact Engine.idleStep_concerns

/-- No operation asks about anything but its own matters. -/
theorem Operation.program_concerns (operation : Operation) :
    operation.program.Concerns operation.matters := by
  cases operation with
  | makeCounter first => exact Within.perform (by simp)
  | claimSerial counter => exact SerialCounter.claim_concerns counter
  | makeMailbox reserve => exact Mailbox.make_concerns reserve
  | push mailbox message => exact Mailbox.push_concerns mailbox message
  | pushFromInterrupt mailbox message => exact Mailbox.pushFromInterrupt_concerns mailbox message
  | drain mailbox => exact Mailbox.drain_concerns mailbox
  | drainLocked mailbox => exact Mailbox.drainLocked_concerns mailbox
  | capacity mailbox => exact Mailbox.capacity_concerns mailbox
  | makeRegistry core reserve => exact Registry.make_concerns core reserve
  | create registry => exact Registry.create_concerns registry
  | takeStaged registry => exact Registry.takeStaged_concerns registry
  | takeStagedLocked registry => exact Registry.takeStagedLocked_concerns registry
  | threads registry => exact Within.locked (Within.perform (by simp)) (by simp) (by simp)
  | bind thread sched => exact Thread.bind_concerns thread sched
  | setStatus thread status => exact Within.perform (by simp)
  | storage thread command => exact Thread.withStorage_concerns thread _
  | makeContext core startup admission registry => exact Context.make_concerns core startup _ _
  | admitStaged context => exact Context.admitStaged_concerns context
  | run context => exact Context.run_concerns context
  | buildCache context => exact Context.buildCache_concerns context
  | tick context => exact Within.perform (by simp)
  | currentThread context => exact Context.currentThread_concerns context
  | buildTable config modes => exact Table.build_concerns config modes
  | currentEngine table => exact table.current_concerns
  | enter engine => exact Engine.enter_concerns engine
  | timerTick engine => exact Engine.timerTick_concerns engine
  | requireContext engine => exact Engine.requireContext_concerns engine
  | localGet engine key =>
      exact Within.bind (Engine.storageSlot_concerns engine) fun slot =>
        (Engine.use_concerns slot _).of_nil
  | localSet engine key value =>
      exact Within.bind (Engine.storageSlot_concerns engine) fun slot =>
        Within.bind (Engine.use_concerns slot _).of_nil fun _ => Within.pure _
  | openScope => exact Within.bind (Within.request (by simp)) fun _ => Within.pure _
  | closeScope scope => exact Within.request (by simp)

end CoreEngines
