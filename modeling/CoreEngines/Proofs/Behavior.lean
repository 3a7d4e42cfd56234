import CoreEngines.Proofs.Locks.Keeping

/-!
The behavior of operations.  The steps of an operation are about few things, and it keeps locks as
it should.  Both are read off the programs in one go.
-/

namespace CoreEngines

/-- What a step is about. -/
inductive Topic
  /-- A look at a counter. -/
  | counter
  /-- The claim of a serial. -/
  | claim
  | mailbox
  | thread
  /-- The making of a thread. -/
  | birth
  /-- A look at a registry, a drain, or the use of its lock. -/
  | staging
  /-- Another thread on record. -/
  | record
  | context
  | engine
  /-- Who may enter an engine, or its context. -/
  | entry
  /-- The making of a counter, a registry or an engine. -/
  | outfit
  /-- A question to the host for a manager or a core, or the making of a context. -/
  | host
deriving DecidableEq

@[simp]
def Lock.topic : Lock → Topic
  | queue _ => .mailbox
  | roster _ => .staging
  | storage _ => .thread
  | bootstrap _ => .engine

@[simp]
def Action.topic? : Action → Option Topic
  | counter _ .load => some .counter
  | counter _ (.exchange _ _) => some .claim
  | mailbox _ _ => some .mailbox
  | thread _ _ => some .thread
  | registry _ (.enroll _) | registry _ (.publish _) => some .record
  | registry _ _ => some .staging
  | context _ _ => some .context
  | engine _ .enter | engine _ .claimContext | engine _ (.fillContext _)
  | engine _ .abandonContext => some .entry
  | engine _ _ => some .engine
  | acquire lock | release lock => some lock.topic
  | newThread _ _ => some .birth
  | newCounter _ | newRegistry _ _ _ | newEngine _ => some .outfit
  | newContext _ => some .host
  | newMailbox _ => none

@[simp]
def Callback.topic? : Callback → Option Topic
  | currentCore | createManager _ _ => some .host
  | schedule _ _ _ => some .thread
  | _ => none

/-- What a step is about, if it is about anything.  An exchange that fails is only a look at the
counter. -/
@[simp]
def Happening.topic? : Happening → Option Topic
  | .acted (.counter _ (.exchange _ _)) (some _) => some .counter
  | .acted action _ => action.topic?
  | .answered callback _ => callback.topic?
  | _ => none

@[simp]
def Procedure.topics : Procedure → List Topic
  | claimSerial _ _ => [.counter, .claim]
  | runLoop _ => [.context, .staging, .thread]
  | idle => []

/-- What the steps of an operation are about. -/
@[simp]
def Operation.topics : Operation → List Topic
  | makeMailbox _ | openScope | closeScope _ => []
  | makeCounter _ | makeRegistry _ _ | buildTable _ _ => [.outfit]
  | claimSerial _ => [.counter, .claim]
  | push _ _ | pushFromInterrupt _ _ | drain _ | drainLocked _ | capacity _ => [.mailbox]
  | create _ => [.counter, .claim, .birth, .staging, .record]
  | takeStaged _ | takeStagedLocked _ | threads _ => [.staging]
  | bind _ _ | setStatus _ _ | storage _ _ => [.thread]
  | makeContext _ _ _ _ | currentEngine _ => [.host]
  | admitStaged _ | run _ => [.context, .staging, .thread]
  | buildCache _ | tick _ | currentThread _ => [.context]
  | enter _ => [.engine, .entry, .host, .context, .staging, .thread]
  | timerTick _ | requireContext _ => [.engine, .context]
  | localGet _ _ | localSet _ _ _ => [.engine, .context, .thread]

@[simp]
def Happening.Shows (topics : List Topic) : Happening → Prop
  | .called procedure => procedure.topics ⊆ topics
  | happening => ∀ topic ∈ happening.topic?, topic ∈ topics

attribute [simp] Happening.Inert

/-- A program is about nothing else, and starts and ends with free hands. -/
structure Program.Behaves {α : Type} (program : Program α) (topics : List Topic) : Prop where
  shows : program.Within (Happening.Shows topics)
  frees : program.Frees

theorem Happening.Shows.mono {topics topics' : List Topic} (htopics : topics ⊆ topics')
    (happening : Happening) (hshows : happening.Shows topics) : happening.Shows topics' := by
  cases happening with
  | called procedure => exact List.Subset.trans hshows htopics
  | acted action answer => exact fun topic htopic => htopics (hshows topic htopic)
  | answered callback result => exact fun topic htopic => htopics (hshows topic htopic)
  | _ => simp

namespace Program.Behaves

variable {α β : Type} {topics : List Topic}

theorem mono {program : Program α} {topics' : List Topic} (hprogram : program.Behaves topics)
    (htopics : topics ⊆ topics') : program.Behaves topics' :=
  ⟨hprogram.shows.mono (Happening.Shows.mono htopics), hprogram.frees⟩

theorem done (result : Except Failure α) : (done result).Behaves topics :=
  ⟨trivial, rfl⟩

theorem pure (value : α) : (pure value : Program α).Behaves topics :=
  done (.ok value)

theorem fail (failure : Failure) : (fail failure : Program α).Behaves topics :=
  done (.error failure)

theorem raise (violation : Violation) : (raise violation : Program α).Behaves topics :=
  fail (.violation violation)

theorem andThen {program : Program α} {next : Except Failure α → Program β}
    (hprogram : program.Behaves topics) (hnext : ∀ result, (next result).Behaves topics) :
    (program.andThen next).Behaves topics :=
  ⟨hprogram.shows.andThen fun result => (hnext result).shows,
    hprogram.frees.andThen fun result => (hnext result).frees⟩

theorem bind {program : Program α} {next : α → Program β} (hprogram : program.Behaves topics)
    (hnext : ∀ value, (next value).Behaves topics) : (program >>= next).Behaves topics :=
  ⟨hprogram.shows.bind fun value => (hnext value).shows,
    hprogram.frees.bind fun value => (hnext value).frees⟩

theorem perform {action : Action}
    (haction : ∀ answer, Happening.Inert (.acted action answer) ∧
      Happening.Shows topics (.acted action answer)) : (perform action).Behaves topics :=
  ⟨Within.perform fun answer => (haction answer).2,
    Frees.of_inert (Within.perform fun answer => (haction answer).1)⟩

theorem report (event : TraceEvent) : (report event).Behaves topics :=
  ⟨Within.report (by simp), Frees.of_inert (Within.report (by simp))⟩

theorem chance : chance.Behaves topics :=
  ⟨Within.chance (by simp), Frees.of_inert (Within.chance (by simp))⟩

theorem request {callback : Callback} (hcallback : ∀ topic ∈ callback.topic?, topic ∈ topics) :
    (request callback).Behaves topics :=
  ⟨Within.request fun _ => hcallback, Frees.request callback⟩

theorem invoke {procedure : Procedure} (hprocedure : procedure.topics ⊆ topics) :
    (invoke procedure).Behaves topics :=
  ⟨Within.invoke hprocedure, Frees.invoke procedure⟩

theorem masked {body : Program α} (hbody : body.Behaves topics) : (masked body).Behaves topics :=
  ⟨hbody.shows.masked (by simp) (by simp), hbody.frees.masked⟩

theorem locked_of_ensures {lock : Lock} {body : Program α} (hlock : lock.topic ∈ topics)
    (hshows : body.Within (Happening.Shows topics))
    (hbody : body.Ensures keeping (.holding lock) fun later _ => later = .holding lock) :
    (locked lock body).Behaves topics :=
  ⟨Within.locked hshows (by simpa) (by simpa), Frees.locked hbody⟩

theorem locked {lock : Lock} {body : Program α} (hlock : lock.topic ∈ topics)
    (hbody : body.Within fun happening => happening.Inert ∧ happening.Shows topics) :
    (locked lock body).Behaves topics :=
  locked_of_ensures hlock (hbody.mono fun _ hhappening => hhappening.2)
    (inert_keeping (hbody.mono fun _ hhappening => hhappening.1))

end Program.Behaves

open Program

namespace SerialCounter

theorem claim_behaves (counter : Ref .counter) : (claim counter).Behaves [.counter, .claim] :=
  Behaves.bind (Behaves.perform (by simp)) fun _ => Behaves.invoke (by simp)

theorem claimStep_behaves (counter : Ref .counter) (seen : UInt64) :
    (claimStep counter seen).Behaves [.counter, .claim] := by
  have hagain : ∀ found, (invoke (.claimSerial counter found)).Behaves [.counter, .claim] :=
    fun found => Behaves.invoke (by simp)
  apply Behaves.bind Behaves.chance
  intro spurious
  split
  · exact Behaves.bind (Behaves.perform (by simp)) hagain
  · apply Behaves.bind (Behaves.perform (by rintro (_ | _) <;> simp))
    intro outcome
    split
    · exact Behaves.pure _
    · exact hagain _

end SerialCounter

namespace Mailbox

variable (place : Ref .mailbox)

theorem make_behaves (reserve : Nat) : (make reserve).Behaves [] := by
  apply Behaves.bind (Behaves.perform (by simp))
  intro made
  split
  · exact Behaves.pure _
  · exact Behaves.fail _

def Works (happening : Happening) : Prop :=
  happening.Inert ∧ happening.Shows [.mailbox]

theorem access_works (access : Access) : (perform (.mailbox place access)).Within Works :=
  Within.perform fun _ => by simp [Works]

theorem push_behaves (message : Message) : (push place message).Behaves [.mailbox] :=
  Behaves.masked <| Behaves.locked (by simp) <|
    Within.bind (access_works place _) fun _ => access_works place _

theorem pushFromInterrupt_behaves (message : Message) :
    (pushFromInterrupt place message).Behaves [.mailbox] := by
  refine Behaves.locked (by simp) (Within.bind (access_works place _) fun accepted => ?_)
  split <;> exact access_works place _

theorem detachAll_works : (detachAll place).Within Works := by
  apply Within.bind (access_works place _)
  intro length
  split
  · exact Within.pure _
  · apply Within.bind (access_works place _)
    intro messages
    apply Within.bind (access_works place _)
    intro replenished
    split
    · exact Within.bind (access_works place _) fun _ => Within.pure _
    · exact Within.fail _

theorem drainLocked_behaves : (drainLocked place).Behaves [.mailbox] := by
  apply Behaves.bind (Behaves.masked (Behaves.locked (by simp) (detachAll_works place)))
  intro messages
  split
  · exact Behaves.pure _
  · exact Behaves.bind (Behaves.report _) fun _ => Behaves.pure _

theorem drain_behaves : (drain place).Behaves [.mailbox] := by
  apply Behaves.bind (Behaves.perform (by simp))
  intro queued
  split
  · exact Behaves.pure _
  · exact drainLocked_behaves place

theorem capacity_behaves : (capacity place).Behaves [.mailbox] :=
  Behaves.masked (Behaves.locked (by simp) (access_works place _))

end Mailbox

namespace Registry

variable (registry : Ref .registry)

theorem make_behaves (core : CoreId) (reserve : Nat) : (make core reserve).Behaves [.outfit] :=
  Behaves.bind (Behaves.perform (by simp)) fun _ => Behaves.perform (by simp)

/-- A thread is put on record under the lock, and the new length is published there. -/
theorem record_behaves (thread : Ref .thread) :
    (locked (.roster registry) do
      let count : Nat ← perform (.registry registry (.enroll thread))
      perform (.registry registry (.publish count))).Behaves [.staging, .record] := by
  apply Behaves.locked_of_ensures (by simp)
  · exact Within.bind (Within.perform (by simp)) fun _ => Within.perform (by simp)
  · simp only [ensures_bind, ensures_perform]
    rintro (count : Nat) -
    have hnext : (Keeping.holding (.roster registry)).next?
        (.acted (.registry registry (.enroll thread)) count) = some (.owing registry count) := by
      simp [Keeping.next?]
    obtain ⟨hallows, howing⟩ := keeping_step hnext
    refine ⟨hallows, fun _ _ => ?_⟩
    rw [howing]
    exact keeping_step (by simp [Keeping.next?])

theorem create_behaves :
    (create registry).Behaves [.counter, .claim, .birth, .staging, .record] := by
  apply Behaves.bind (Behaves.perform (by simp))
  intro shape
  apply Behaves.bind ((SerialCounter.claim_behaves _).mono (by simp))
  intro serial
  apply Behaves.bind ((Mailbox.make_behaves _).mono (by simp))
  intro mailbox
  apply Behaves.bind (Behaves.perform (by simp))
  intro thread
  apply Behaves.bind ((record_behaves registry thread).mono (by simp))
  intro _
  exact Behaves.bind (Behaves.report _) fun _ => Behaves.pure _

theorem takeStagedLocked_behaves : (takeStagedLocked registry).Behaves [.staging] :=
  Behaves.locked (by simp) (Within.perform (by simp))

theorem takeStaged_behaves : (takeStaged registry).Behaves [.staging] := by
  apply Behaves.bind (Behaves.perform (by simp))
  intro count
  split
  · exact Behaves.pure _
  · exact takeStagedLocked_behaves registry

theorem threads_behaves : (threads registry).Behaves [.staging] :=
  Behaves.locked (by simp) (Within.perform (by simp))

end Registry

theorem Handle.get_behaves (handle : Handle) : handle.get.Behaves [] := by
  cases handle
  · exact Behaves.raise _
  · exact Behaves.pure _

namespace Thread

theorem bind_behaves (thread : Ref .thread) (sched : SchedRef) :
    (bind thread sched).Behaves [.thread] := by
  apply Behaves.bind (Behaves.perform (by simp))
  intro first
  split
  · exact Behaves.pure _
  · exact Behaves.bind (Behaves.perform (by simp)) fun _ => Behaves.raise _

theorem setStatus_behaves (thread : Ref .thread) (status : ThreadStatus) :
    (setStatus thread status).Behaves [.thread] :=
  Behaves.perform (by simp)

theorem withStorage_behaves {α : Type} (thread : Ref .thread)
    (use : LocalStorage → α × LocalStorage) : (withStorage thread use).Behaves [.thread] := by
  apply Behaves.locked (by simp)
  apply Within.bind (Within.perform (by simp))
  intro storage
  exact Within.bind (Within.perform (by simp)) fun _ => Within.pure _

end Thread

namespace Context

theorem admitEach_behaves (manager : ManagerRef) (threads : List (Ref .thread)) :
    (admitEach manager threads).Behaves [.thread] := by
  induction threads with
  | nil => exact Behaves.pure _
  | cons thread rest ih =>
      apply Behaves.bind (Behaves.request (by simp))
      intro sched
      apply Behaves.bind (Behaves.perform (by simp))
      intro id
      apply Behaves.bind (Behaves.report _)
      intro _
      exact Behaves.bind (Thread.bind_behaves thread sched) fun _ => ih

theorem admitStaged_behaves (context : Ref .context) :
    (admitStaged context).Behaves [.context, .staging, .thread] := by
  apply Behaves.bind (Behaves.perform (by simp))
  intro shape
  apply Behaves.bind ((Registry.takeStaged_behaves _).mono (by simp))
  intro threads
  split
  · exact Behaves.pure _
  · apply Behaves.bind ((admitEach_behaves _ _).mono (by simp))
    intro _
    exact Behaves.bind (Behaves.report _) fun _ => Behaves.pure _

theorem make_behaves (core : CoreId) (startup : Bool) (admission : Admission)
    (registry : Ref .registry) : (make core startup admission registry).Behaves [.host] := by
  apply Behaves.bind (Behaves.request (by simp))
  intro manager
  exact Behaves.bind (Behaves.report _) fun _ => Behaves.perform (by simp)

theorem loopStep_behaves (context : Ref .context) :
    (loopStep context).Behaves [.context, .staging, .thread] := by
  have hagain : (invoke (.runLoop context)).Behaves [.context, .staging, .thread] :=
    Behaves.invoke (by simp)
  apply Behaves.bind (Behaves.perform (by simp))
  intro shape
  apply Behaves.bind (Behaves.request (by simp))
  intro quantum
  split
  · exact Behaves.pure _
  · split
    · exact hagain
    · exact Behaves.bind (admitStaged_behaves context) fun _ => hagain

theorem run_behaves (context : Ref .context) :
    (run context).Behaves [.context, .staging, .thread] := by
  apply Behaves.bind (admitStaged_behaves context)
  intro _
  apply Behaves.bind (Behaves.perform (by simp))
  intro shape
  apply Behaves.bind (Behaves.request (by simp))
  intro ready
  split
  · apply Behaves.bind (Behaves.report _)
    intro _
    exact Behaves.bind (Behaves.invoke (by simp)) fun _ => Behaves.report _
  · exact Behaves.raise _

theorem buildCache_behaves (context : Ref .context) :
    (buildCache context).Behaves [.context] := by
  apply Behaves.bind (Behaves.perform (by simp))
  intro claim
  split
  · exact Behaves.pure _
  · apply Behaves.bind (Behaves.perform (by simp))
    intro shape
    apply Behaves.bind (Behaves.report _)
    intro _
    apply Behaves.andThen (Behaves.request (by simp))
    intro built
    split
    · exact Behaves.perform (by simp)
    · exact Behaves.bind (Behaves.perform (by simp)) fun _ => Behaves.fail _

theorem tick_behaves (context : Ref .context) : (tick context).Behaves [.context] :=
  Behaves.perform (by simp)

theorem currentThread_behaves (context : Ref .context) :
    (currentThread context).Behaves [.context] :=
  Behaves.bind (Behaves.perform (by simp)) fun _ => Behaves.request (by simp)

end Context

namespace Table

theorem makeEngine_behaves (config : Config) (core : CoreId) (mode : Mode) :
    (makeEngine config core mode).Behaves [.outfit] :=
  Behaves.bind (Registry.make_behaves core _) fun _ => Behaves.perform (by simp)

theorem makeEngines_behaves (config : Config) (first : UInt32) (modes : List Mode) :
    (makeEngines config first modes).Behaves [.outfit] := by
  induction modes generalizing first with
  | nil => exact Behaves.pure _
  | cons mode modes ih =>
      apply Behaves.bind (makeEngine_behaves config _ mode)
      intro engine
      exact Behaves.bind (ih _) fun engines => Behaves.pure _

theorem build_behaves (config : Config) (modes : List Mode) :
    (build config modes).Behaves [.outfit] := by
  unfold build
  split
  · exact Behaves.raise _
  · apply Behaves.bind (makeEngines_behaves config 0 _)
    intro engines
    exact Behaves.bind (Behaves.report _) fun _ => Behaves.pure _

theorem current_behaves (table : Table) : table.current.Behaves [.host] := by
  apply Behaves.bind (Behaves.request (by simp))
  intro core
  split
  · exact Behaves.pure _
  · exact Behaves.raise _

end Table

namespace Engine

theorem makeContext_behaves (engine : Ref .engine) (core : CoreId) (shape : EngineShape) :
    (makeContext engine core shape).Behaves [.entry, .host] := by
  apply Behaves.bind (Behaves.perform (by simp))
  intro claim
  split
  · exact Behaves.pure _
  · apply Behaves.andThen ((Context.make_behaves _ _ _ _).mono (by simp))
    intro made
    split
    · exact Behaves.bind (Behaves.perform (by simp)) fun _ => Behaves.pure _
    · exact Behaves.bind (Behaves.perform (by simp)) fun _ => Behaves.fail _

theorem idleStep_behaves : idleStep.Behaves [] :=
  Behaves.bind (Behaves.request (by simp)) fun _ => Behaves.invoke (by simp)

theorem operate_behaves (engine : Ref .engine) (core : CoreId) (shape : EngineShape) :
    (operate engine core shape).Behaves [.entry, .host, .context, .staging, .thread] := by
  unfold operate
  split
  · apply Behaves.bind (Behaves.request (by simp))
    intro never
    cases never
  · exact Behaves.invoke (by simp)
  · exact Behaves.bind ((makeContext_behaves engine core shape).mono (by simp)) fun context =>
      (Context.run_behaves context).mono (by simp)

theorem enter_behaves (engine : Ref .engine) :
    (enter engine).Behaves [.engine, .entry, .host, .context, .staging, .thread] := by
  apply Behaves.bind (Behaves.perform (by simp))
  intro shape
  apply Behaves.bind (Behaves.perform (by simp))
  intro entered
  split
  · exact Behaves.raise _
  · apply Behaves.bind (Behaves.perform (by simp))
    intro context
    split
    · exact Behaves.raise _
    · apply Behaves.bind (Behaves.request (by simp))
      intro core
      split
      · exact Behaves.bind (Behaves.report _) fun _ =>
          (operate_behaves engine core shape).mono (by simp)
      · exact Behaves.raise _

theorem timerTick_behaves (engine : Ref .engine) :
    (timerTick engine).Behaves [.engine, .context] := by
  apply Behaves.bind (Behaves.perform (by simp))
  intro context
  split
  · exact (Context.tick_behaves _).mono (by simp)
  · exact Behaves.pure _

theorem requireContext_behaves (engine : Ref .engine) :
    (requireContext engine).Behaves [.engine] := by
  apply Behaves.bind (Behaves.perform (by simp))
  intro context
  split
  · exact Behaves.pure _
  · exact Behaves.bind (Behaves.perform (by simp)) fun _ => Behaves.raise _

theorem use_behaves {α : Type} (slot : StorageSlot) (use : LocalStorage → α × LocalStorage) :
    (slot.use use).Behaves [.engine, .thread] := by
  cases slot with
  | thread target => exact (Thread.withStorage_behaves target use).mono (by simp)
  | bootstrap engine =>
      apply Behaves.locked (by simp)
      apply Within.bind (Within.perform (by simp))
      intro storage
      exact Within.bind (Within.perform (by simp)) fun _ => Within.pure _

theorem storageSlot_behaves (engine : Ref .engine) :
    (storageSlot engine).Behaves [.engine, .context] := by
  apply Behaves.bind (Behaves.perform (by simp))
  intro context
  split
  · exact Behaves.pure _
  · apply Behaves.bind ((Context.currentThread_behaves _).mono (by simp))
    intro current
    split
    · exact Behaves.bind ((Handle.get_behaves _).mono (by simp)) fun _ => Behaves.pure _
    · exact Behaves.bind (Behaves.perform (by simp)) fun _ => Behaves.raise _

theorem localGet_behaves (engine : Ref .engine) (key : UInt64) :
    (localGet engine key).Behaves [.engine, .context, .thread] :=
  Behaves.bind ((storageSlot_behaves engine).mono (by simp)) fun slot =>
    (use_behaves slot _).mono (by simp)

theorem localSet_behaves (engine : Ref .engine) (key value : UInt64) :
    (localSet engine key value).Behaves [.engine, .context, .thread] :=
  Behaves.bind ((storageSlot_behaves engine).mono (by simp)) fun slot =>
    Behaves.bind ((use_behaves slot _).mono (by simp)) fun _ => Behaves.pure _

end Engine

theorem Procedure.code_behaves (procedure : Procedure) :
    procedure.code.Behaves procedure.topics := by
  cases procedure with
  | claimSerial counter seen => exact SerialCounter.claimStep_behaves counter seen
  | runLoop context => exact Context.loopStep_behaves context
  | idle => exact Engine.idleStep_behaves

/-- Every operation is about its topics only, and starts and ends with free hands. -/
theorem Operation.program_behaves (operation : Operation) :
    operation.program.Behaves operation.topics := by
  cases operation with
  | makeCounter first => exact Behaves.perform (by simp)
  | claimSerial counter => exact SerialCounter.claim_behaves counter
  | makeMailbox reserve => exact Mailbox.make_behaves reserve
  | push mailbox message => exact Mailbox.push_behaves mailbox message
  | pushFromInterrupt mailbox message => exact Mailbox.pushFromInterrupt_behaves mailbox message
  | drain mailbox => exact Mailbox.drain_behaves mailbox
  | drainLocked mailbox => exact Mailbox.drainLocked_behaves mailbox
  | capacity mailbox => exact Mailbox.capacity_behaves mailbox
  | makeRegistry core reserve => exact Registry.make_behaves core reserve
  | create registry => exact Registry.create_behaves registry
  | takeStaged registry => exact Registry.takeStaged_behaves registry
  | takeStagedLocked registry => exact Registry.takeStagedLocked_behaves registry
  | threads registry => exact Registry.threads_behaves registry
  | bind thread sched => exact Thread.bind_behaves thread sched
  | setStatus thread status => exact Thread.setStatus_behaves thread status
  | storage thread command => exact Thread.withStorage_behaves thread _
  | makeContext core startup admission registry => exact Context.make_behaves core startup _ _
  | admitStaged context => exact Context.admitStaged_behaves context
  | run context => exact Context.run_behaves context
  | buildCache context => exact Context.buildCache_behaves context
  | tick context => exact Context.tick_behaves context
  | currentThread context => exact Context.currentThread_behaves context
  | buildTable config modes => exact Table.build_behaves config modes
  | currentEngine table => exact table.current_behaves
  | enter engine => exact Engine.enter_behaves engine
  | timerTick engine => exact Engine.timerTick_behaves engine
  | requireContext engine => exact (Engine.requireContext_behaves engine).mono (by simp)
  | localGet engine key => exact Engine.localGet_behaves engine key
  | localSet engine key value => exact Engine.localSet_behaves engine key value
  | openScope => exact Behaves.bind (Behaves.request (by simp)) fun _ => Behaves.pure _
  | closeScope scope => exact Behaves.request (by simp)

/-- All operations keep locks as they should. -/
theorem keeping_obeyed : keeping.Obeyed where
  operations operation := operation.program_behaves.frees
  procedures procedure state hfree := by
    obtain rfl : state = .free := hfree
    exact procedure.code_behaves.frees

end CoreEngines
