import CoreEngines.Proofs.Chronicles
import CoreEngines.Proofs.Permanence

/-!
Names in traces and violations.  An operation that prints the identifier of a thread, in an entry of
the trace or because the thread was admitted twice, has made the thread or has asked it for its
identifier.  So whoever is named is there.
-/

namespace CoreEngines

@[simp]
def TraceEvent.thread? : TraceEvent → Option ThreadId
  | threadCreated id | threadAdmitted id _ => some id
  | _ => none

@[simp]
def Failure.thread? : Failure → Option ThreadId
  | violation (.admittedTwice id) => some id
  | _ => none

/-- A thread with this identifier was made, or was asked for it. -/
def Happening.Introduces (id : ThreadId) : Happening → Prop
  | .acted (.newThread given _) _ => given = id
  | .acted (.thread _ .id) answer => answer = id
  | _ => False

def Introduced (story : List Happening) (id : ThreadId) : Prop :=
  ∃ step ∈ story, step.Introduces id

/-- An operation that has done so much can fail like this: it knows whom it names, unless it only
passes on the failure of a callback. -/
def Accountable (story : List Happening) (failure : Failure) : Prop :=
  (∀ id ∈ failure.thread?, Introduced story id) ∨
    ∃ callback, .answered callback (.error failure) ∈ story

/-- The discipline of names: nobody is named who was not introduced. -/
def naming : Discipline (List Happening) where
  start _ := []
  observe story happening := story ++ [happening]
  Allows story happening :=
    match happening with
    | .reported event => ∀ id ∈ event.thread?, Introduced story id
    | _ => True
  Presumes _ _ := True
  Enters _ _ := True
  Leaves _ story later result :=
    story <+: later ∧ ∀ failure, result = .error failure → Accountable later failure
  Returns _ story result := ∀ failure, result = .error failure → Accountable story failure

/-- The program cites nobody but those that are known, and those that it gets to know. -/
def Program.Cites {α : Type} (program : Program α) (known : List ThreadId) : Prop :=
  ∀ story, (∀ id ∈ known, Introduced story id) → program.Ensures naming story fun later result =>
    story <+: later ∧ ∀ failure, result = .error failure → Accountable later failure

section
variable {story later : List Happening} {id : ThreadId} {failure : Failure}

theorem Introduced.mono (hintroduced : Introduced story id) (hlater : story <+: later) :
    Introduced later id :=
  hintroduced.imp fun _ hstep => ⟨hlater.subset hstep.1, hstep.2⟩

theorem Accountable.mono (haccountable : Accountable story failure) (hlater : story <+: later) :
    Accountable later failure :=
  haccountable.imp (fun hknown id hid => (hknown id hid).mono hlater) fun hpassed =>
    hpassed.imp fun _ hmem => hlater.subset hmem

end

namespace Program.Cites

variable {α β : Type} {known : List ThreadId}

theorem pure (value : α) : (pure value : Program α).Cites known :=
  fun _ _ => ⟨List.prefix_rfl, nofun⟩

theorem fail {failure : Failure} (hknown : ∀ id ∈ failure.thread?, id ∈ known) :
    (fail failure : Program α).Cites known := by
  intro story hstory
  refine ⟨List.prefix_rfl, ?_⟩
  rintro _ ⟨⟩
  exact Or.inl fun id hid => hstory id (hknown id hid)

theorem raise {violation : Violation}
    (hknown : ∀ id ∈ (Failure.violation violation).thread?, id ∈ known) :
    (raise violation : Program α).Cites known :=
  fail hknown

theorem bind {program : Program α} {next : α → Program β} (hprogram : program.Cites known)
    (hnext : ∀ value, (next value).Cites known) : (program >>= next).Cites known := by
  intro story hstory
  rw [ensures_bind]
  refine (hprogram story hstory).mono ?_
  rintro later (failure | value) ⟨hlater, hfails⟩
  · refine ⟨hlater, ?_⟩
    rintro _ ⟨⟩
    exact hfails failure rfl
  · refine (hnext value later fun id hid => (hstory id hid).mono hlater).mono ?_
    exact fun last result hlast => ⟨hlater.trans hlast.1, hlast.2⟩

theorem perform {action : Action} : (Program.perform action).Cites known :=
  fun _ _ _ _ => ⟨trivial, List.prefix_append _ _, nofun⟩

/-- Whoever is introduced by an answer is known from then on. -/
theorem introduce {action : Action} {next : action.Answer → Program β}
    (named : action.Answer → ThreadId)
    (hintroduces : ∀ answer, (Happening.acted action answer).Introduces (named answer))
    (hnext : ∀ answer, (next answer).Cites (named answer :: known)) :
    (act action next).Cites known := by
  intro story hstory answer _
  have hcites := hnext answer (story ++ [.acted action answer]) <| List.forall_mem_cons.mpr
    ⟨⟨_, List.mem_concat_self, hintroduces answer⟩, fun id hid =>
      (hstory id hid).mono (List.prefix_append _ _)⟩
  exact ⟨trivial, hcites.mono fun last result hlast =>
    ⟨(List.prefix_append _ _).trans hlast.1, hlast.2⟩⟩

theorem newThread {given : ThreadId} {mailbox : Ref .mailbox} {next : Ref .thread → Program β}
    (hnext : ∀ thread, (next thread).Cites (given :: known)) :
    (Program.perform (.newThread given mailbox) >>= next).Cites known :=
  introduce (fun _ => given) (fun _ => rfl) hnext

theorem identify {target : Ref .thread} {next : ThreadId → Program β}
    (hnext : ∀ id, (next id).Cites (id :: known)) :
    (Program.perform (.thread target .id) >>= next).Cites known :=
  introduce (fun id => id) (fun _ => rfl) hnext

theorem report {event : TraceEvent} (hknown : ∀ id ∈ event.thread?, id ∈ known) :
    (report event).Cites known :=
  fun _ hstory _ =>
    ⟨fun id hid => hstory id (hknown id hid), List.prefix_append _ _, nofun⟩

theorem chance : chance.Cites known :=
  fun _ _ _ _ => ⟨trivial, List.prefix_append _ _, nofun⟩

theorem request (callback : Callback) : (request callback).Cites known := by
  refine fun _ _ result _ => ⟨trivial, List.prefix_append _ _, ?_⟩
  rintro failure rfl
  exact Or.inr ⟨callback, List.mem_concat_self⟩

theorem invoke (procedure : Procedure) : (invoke procedure).Cites known :=
  fun _ _ _ => ⟨trivial, trivial, fun _ _ hleaves =>
    ⟨(List.prefix_append _ _).trans hleaves.1, hleaves.2⟩⟩

/-- What comes after a failure may fail in the same way. -/
theorem andThen {program : Program α} {next : Except Failure α → Program β}
    (hprogram : program.Cites known) (hnext : ∀ value, (next (.ok value)).Cites known)
    (hfails : ∀ failure, ∃ cleanup : Program Unit, cleanup.Cites known ∧
      next (.error failure) = cleanup >>= fun _ => Program.fail failure) :
    (program.andThen next).Cites known := by
  intro story hstory
  rw [ensures_andThen]
  refine (hprogram story hstory).mono ?_
  rintro later (failure | value) ⟨hlater, hfailed⟩
  · obtain ⟨cleanup, hcleanup, hnext⟩ := hfails failure
    rw [hnext, ensures_bind]
    refine (hcleanup later fun id hid => (hstory id hid).mono hlater).mono ?_
    rintro last (other | _) ⟨hlast, hother⟩
    · exact ⟨hlater.trans hlast, fun _ heq => hother _ (by cases heq; rfl)⟩
    · refine ⟨hlater.trans hlast, ?_⟩
      rintro _ ⟨⟩
      exact (hfailed failure rfl).mono hlast
  · refine (hnext value later fun id hid => (hstory id hid).mono hlater).mono ?_
    exact fun last result hlast => ⟨hlater.trans hlast.1, hlast.2⟩

theorem withCleanup {body : Program α} {cleanup : Program Unit} (hbody : body.Cites known)
    (hcleanup : cleanup.Cites known) : (body.withCleanup cleanup).Cites known := by
  intro story hstory
  rw [Program.withCleanup, ensures_andThen]
  refine (hbody story hstory).mono fun later result hlater => ?_
  rw [ensures_andThen]
  refine (hcleanup later fun id hid => (hstory id hid).mono hlater.1).mono ?_
  rintro last (failure | _) ⟨hlast, hfailed⟩
  · cases result with
    | ok value =>
        refine ⟨hlater.1.trans hlast, ?_⟩
        rintro _ ⟨⟩
        exact hfailed failure rfl
    | error first =>
        refine ⟨hlater.1.trans hlast, ?_⟩
        rintro _ ⟨⟩
        exact Or.inl (by simp)
  · exact ⟨hlater.1.trans hlast, fun failure hfailure => (hlater.2 failure hfailure).mono hlast⟩

theorem locked {lock : Lock} {body : Program α} (hbody : body.Cites known) :
    (locked lock body).Cites known :=
  perform.bind fun _ => hbody.withCleanup perform

theorem masked {body : Program α} (hbody : body.Cites known) : (masked body).Cites known :=
  (request _).bind fun _ => hbody.withCleanup (request _)

end Program.Cites

open Program

section
variable {known : List ThreadId}

namespace SerialCounter

theorem claim_cites (counter : Ref .counter) : (claim counter).Cites known :=
  Cites.perform.bind fun _ => Cites.invoke _

theorem claimStep_cites (counter : Ref .counter) (seen : UInt64) :
    (claimStep counter seen).Cites known := by
  apply Cites.chance.bind
  intro spurious
  split
  · exact Cites.perform.bind fun _ => Cites.invoke _
  · apply Cites.perform.bind
    intro outcome
    split
    · exact Cites.pure _
    · exact Cites.invoke _

end SerialCounter

namespace Mailbox

variable (place : Ref .mailbox)

theorem make_cites (reserve : Nat) : (make reserve).Cites known := by
  apply Cites.perform.bind
  intro made
  split
  · exact Cites.pure _
  · exact Cites.fail (by simp)

theorem push_cites (message : Message) : (push place message).Cites known :=
  Cites.masked (Cites.locked (Cites.perform.bind fun _ => Cites.perform))

theorem pushFromInterrupt_cites (message : Message) :
    (pushFromInterrupt place message).Cites known := by
  apply Cites.locked
  apply Cites.perform.bind
  intro accepted
  split <;> exact Cites.perform

theorem detachAll_cites : (detachAll place).Cites known := by
  apply Cites.perform.bind
  intro length
  split
  · exact Cites.pure _
  · apply Cites.perform.bind
    intro messages
    apply Cites.perform.bind
    intro replenished
    split
    · exact Cites.perform.bind fun _ => Cites.pure _
    · exact Cites.fail (by simp)

theorem drainLocked_cites : (drainLocked place).Cites known := by
  apply (Cites.masked (Cites.locked (detachAll_cites place))).bind
  intro messages
  split
  · exact Cites.pure _
  · exact (Cites.report (by simp)).bind fun _ => Cites.pure _

theorem drain_cites : (drain place).Cites known := by
  apply Cites.perform.bind
  intro queued
  split
  · exact Cites.pure _
  · exact drainLocked_cites place

end Mailbox

namespace Registry

variable (registry : Ref .registry)

theorem make_cites (core : CoreId) (reserve : Nat) : (make core reserve).Cites known :=
  Cites.perform.bind fun _ => Cites.perform

/-- The thread that is reported is the one that was made. -/
theorem create_cites : (create registry).Cites known := by
  apply Cites.perform.bind
  intro shape
  apply (SerialCounter.claim_cites _).bind
  intro serial
  apply (Mailbox.make_cites _).bind
  intro mailbox
  apply Cites.newThread
  intro thread
  refine Cites.bind (Cites.locked (Cites.perform.bind fun _ => Cites.perform)) fun _ => ?_
  exact (Cites.report (by simp)).bind fun _ => Cites.pure _

theorem takeStagedLocked_cites : (takeStagedLocked registry).Cites known :=
  Cites.locked Cites.perform

theorem takeStaged_cites : (takeStaged registry).Cites known := by
  apply Cites.perform.bind
  intro count
  split
  · exact Cites.pure _
  · exact takeStagedLocked_cites registry

end Registry

theorem Handle.get_cites (handle : Handle) : handle.get.Cites known := by
  cases handle
  · exact Cites.raise (by simp)
  · exact Cites.pure _

namespace Thread

theorem bind_cites (thread : Ref .thread) (sched : SchedRef) : (bind thread sched).Cites known := by
  apply Cites.perform.bind
  intro first
  split
  · exact Cites.pure _
  · exact Cites.identify fun id => Cites.raise (by simp)

theorem withStorage_cites {α : Type} (thread : Ref .thread)
    (use : LocalStorage → α × LocalStorage) : (withStorage thread use).Cites known :=
  Cites.locked (Cites.perform.bind fun _ => Cites.perform.bind fun _ => Cites.pure _)

end Thread

namespace Context

/-- The thread that is reported is the one that was handed over. -/
theorem admitEach_cites (manager : ManagerRef) (threads : List (Ref .thread)) :
    (admitEach manager threads).Cites known := by
  induction threads generalizing known with
  | nil => exact Cites.pure _
  | cons thread rest ih =>
      apply (Cites.request _).bind
      intro sched
      apply Cites.identify
      intro id
      apply (Cites.report (by simp)).bind
      intro _
      exact (Thread.bind_cites thread sched).bind fun _ => ih

theorem admitStaged_cites (context : Ref .context) : (admitStaged context).Cites known := by
  apply Cites.perform.bind
  intro shape
  apply (Registry.takeStaged_cites _).bind
  intro threads
  split
  · exact Cites.pure _
  · apply (admitEach_cites _ _).bind
    intro _
    exact (Cites.report (by simp)).bind fun _ => Cites.pure _

theorem make_cites (core : CoreId) (startup : Bool) (admission : Admission)
    (registry : Ref .registry) : (make core startup admission registry).Cites known := by
  apply (Cites.request _).bind
  intro manager
  exact (Cites.report (by simp)).bind fun _ => Cites.perform

theorem loopStep_cites (context : Ref .context) : (loopStep context).Cites known := by
  apply Cites.perform.bind
  intro shape
  apply (Cites.request _).bind
  intro quantum
  split
  · exact Cites.pure _
  · split
    · exact Cites.invoke _
    · exact (admitStaged_cites context).bind fun _ => Cites.invoke _

theorem run_cites (context : Ref .context) : (run context).Cites known := by
  apply (admitStaged_cites context).bind
  intro _
  apply Cites.perform.bind
  intro shape
  apply (Cites.request _).bind
  intro ready
  split
  · apply (Cites.report (by simp)).bind
    intro _
    exact (Cites.invoke _).bind fun _ => Cites.report (by simp)
  · exact Cites.raise (by simp)

theorem buildCache_cites (context : Ref .context) : (buildCache context).Cites known := by
  apply Cites.perform.bind
  intro claim
  split
  · exact Cites.pure _
  · apply Cites.perform.bind
    intro shape
    apply (Cites.report (by simp)).bind
    intro _
    exact (Cites.request _).andThen (fun _ => Cites.perform)
      fun _ => ⟨perform (.context context .abandonCache), Cites.perform, rfl⟩

theorem currentThread_cites (context : Ref .context) : (currentThread context).Cites known :=
  Cites.perform.bind fun _ => Cites.request _

end Context

namespace Table

theorem makeEngine_cites (config : Config) (core : CoreId) (mode : Mode) :
    (makeEngine config core mode).Cites known :=
  (Registry.make_cites core _).bind fun _ => Cites.perform

theorem makeEngines_cites (config : Config) (first : UInt32) (modes : List Mode) :
    (makeEngines config first modes).Cites known := by
  induction modes generalizing first with
  | nil => exact Cites.pure _
  | cons mode modes ih =>
      exact (makeEngine_cites config _ mode).bind fun _ => (ih _).bind fun _ => Cites.pure _

theorem build_cites (config : Config) (modes : List Mode) : (build config modes).Cites known := by
  unfold build
  split
  · exact Cites.raise (by simp)
  · apply (makeEngines_cites config 0 _).bind
    intro engines
    exact (Cites.report (by simp)).bind fun _ => Cites.pure _

theorem current_cites (table : Table) : table.current.Cites known := by
  apply (Cites.request _).bind
  intro core
  split
  · exact Cites.pure _
  · exact Cites.raise (by simp)

end Table

namespace Engine

theorem makeContext_cites (engine : Ref .engine) (core : CoreId) (shape : EngineShape) :
    (makeContext engine core shape).Cites known := by
  apply Cites.perform.bind
  intro claim
  split
  · exact Cites.pure _
  · exact (Context.make_cites _ _ _ _).andThen (fun _ => Cites.perform.bind fun _ => Cites.pure _)
      fun _ => ⟨perform (.engine engine .abandonContext), Cites.perform, rfl⟩

theorem idleStep_cites : idleStep.Cites known :=
  (Cites.request _).bind fun _ => Cites.invoke _

theorem operate_cites (engine : Ref .engine) (core : CoreId) (shape : EngineShape) :
    (operate engine core shape).Cites known := by
  unfold operate
  split
  · exact (Cites.request _).bind fun never => nomatch never
  · exact Cites.invoke _
  · exact (makeContext_cites engine core shape).bind fun context => Context.run_cites context

theorem enter_cites (engine : Ref .engine) : (enter engine).Cites known := by
  apply Cites.perform.bind
  intro shape
  apply Cites.perform.bind
  intro entered
  split
  · exact Cites.raise (by simp)
  · apply Cites.perform.bind
    intro context
    split
    · exact Cites.raise (by simp)
    · apply (Cites.request _).bind
      intro core
      split
      · exact (Cites.report (by simp)).bind fun _ => operate_cites engine core shape
      · exact Cites.raise (by simp)

theorem timerTick_cites (engine : Ref .engine) : (timerTick engine).Cites known := by
  apply Cites.perform.bind
  intro context
  split
  · exact Cites.perform
  · exact Cites.pure _

theorem requireContext_cites (engine : Ref .engine) : (requireContext engine).Cites known := by
  apply Cites.perform.bind
  intro context
  split
  · exact Cites.pure _
  · exact Cites.perform.bind fun _ => Cites.raise (by simp)

theorem use_cites {α : Type} (slot : StorageSlot) (use : LocalStorage → α × LocalStorage) :
    (slot.use use).Cites known := by
  cases slot with
  | thread target => exact Thread.withStorage_cites target use
  | bootstrap engine =>
      exact Cites.locked (Cites.perform.bind fun _ => Cites.perform.bind fun _ => Cites.pure _)

theorem storageSlot_cites (engine : Ref .engine) : (storageSlot engine).Cites known := by
  apply Cites.perform.bind
  intro context
  split
  · exact Cites.pure _
  · apply (Context.currentThread_cites _).bind
    intro current
    split
    · exact (Handle.get_cites _).bind fun _ => Cites.pure _
    · exact Cites.perform.bind fun _ => Cites.raise (by simp)

end Engine

/-- No operation cites anybody whom it has not met. -/
theorem Operation.program_cites (operation : Operation) (known : List ThreadId) :
    operation.program.Cites known := by
  cases operation with
  | claimSerial counter => exact SerialCounter.claim_cites counter
  | makeMailbox reserve => exact Mailbox.make_cites reserve
  | push mailbox message => exact Mailbox.push_cites mailbox message
  | pushFromInterrupt mailbox message => exact Mailbox.pushFromInterrupt_cites mailbox message
  | drain mailbox => exact Mailbox.drain_cites mailbox
  | drainLocked mailbox => exact Mailbox.drainLocked_cites mailbox
  | capacity mailbox => exact Cites.masked (Cites.locked Cites.perform)
  | makeRegistry core reserve => exact Registry.make_cites core reserve
  | create registry => exact Registry.create_cites registry
  | takeStaged registry => exact Registry.takeStaged_cites registry
  | takeStagedLocked registry => exact Registry.takeStagedLocked_cites registry
  | threads registry => exact Cites.locked Cites.perform
  | bind thread sched => exact Thread.bind_cites thread sched
  | storage thread command => exact Thread.withStorage_cites thread _
  | makeContext core startup admission registry => exact Context.make_cites core startup _ _
  | admitStaged context => exact Context.admitStaged_cites context
  | run context => exact Context.run_cites context
  | buildCache context => exact Context.buildCache_cites context
  | currentThread context => exact Context.currentThread_cites context
  | buildTable config modes => exact Table.build_cites config modes
  | currentEngine table => exact table.current_cites
  | enter engine => exact Engine.enter_cites engine
  | timerTick engine => exact Engine.timerTick_cites engine
  | requireContext engine => exact Engine.requireContext_cites engine
  | localGet engine key =>
      exact (Engine.storageSlot_cites engine).bind fun slot => Engine.use_cites slot _
  | localSet engine key value =>
      exact (Engine.storageSlot_cites engine).bind fun slot =>
        (Engine.use_cites slot _).bind fun _ => Cites.pure _
  | openScope => exact (Cites.request _).bind fun _ => Cites.pure _
  | closeScope scope => exact Cites.request _
  | makeCounter | setStatus | tick => exact Cites.perform

end

theorem naming_rounds : naming.Rounds := by
  intro procedure story _
  have hcites : procedure.code.Cites [] := by
    cases procedure with
    | claimSerial counter seen => exact SerialCounter.claimStep_cites counter seen
    | runLoop context => exact Context.loopStep_cites context
    | idle => exact Engine.idleStep_cites
  exact hcites story nofun

theorem naming_foldl (early story : List Happening) :
    story.foldl naming.observe early = early ++ story := by
  induction story generalizing early with
  | nil => simp
  | cons happening story ih =>
      rw [List.foldl_cons, ih]
      simp [naming]

namespace Runs

variable {start world : World} {history : History} {flows : Nat → Flow} {number : Nat}
  {operation : Operation} {story : List Happening} {id : ThreadId}

/-- Whoever was introduced is there. -/
theorem exists_of_introduced (hrun : Runs start history world flows)
    (hown : (Journal.ofHistory history).own number = .started operation :: story)
    (hintroduced : Introduced story id) : ∃ thread, world.threadId? thread = some id := by
  obtain ⟨step, hmem, hstep⟩ := hintroduced
  have hhistory := hrun.mem_history hown hmem
  cases step with
  | acted action answer =>
      cases action with
      | newThread given mailbox =>
          obtain rfl : given = id := hstep
          exact ⟨answer, (hrun.bears _ hhistory).1⟩
      | thread target access =>
          cases access with
          | id =>
              obtain rfl : answer = id := hstep
              obtain ⟨⟨index, _⟩, hentry, rfl⟩ := List.mem_map.mp hhistory
              obtain ⟨before, after, rfl⟩ := List.append_of_mem hentry
              obtain ⟨past, _, later, _, _, _, hafter, houtlasts⟩ := hrun.turn
              have hfound : past.threadId? target = some answer := by
                cases World.effect_of_perform? hafter with
                | thread access hobject => exact congrArg (Option.map (·.id)) hobject
              exact ⟨target, houtlasts.threads ((World.outlasts_after hafter).threads hfound)⟩
          | _ => cases hstep
      | _ => cases hstep
  | _ => cases hstep

/-- Every entry of a trace that prints the identifier of a thread prints that of one that is
there. -/
theorem exists_of_reported {event : TraceEvent} (hrun : Runs start history world flows)
    (hmem : .reported event ∈ history.map Prod.snd) (hid : event.thread? = some id) :
    ∃ thread, world.threadId? thread = some id := by
  obtain ⟨⟨index, _⟩, hentry, rfl⟩ := List.mem_map.mp hmem
  obtain ⟨number, operation, story, hown, hstory⟩ := hrun.doer hentry rfl
  obtain ⟨made, after, rfl⟩ := List.append_of_mem hstory
  obtain ⟨rest, hreaches⟩ := hrun.reaches_step hown rfl
  have hkeeps := ((operation.program_cites [] [] nofun).of_reaches naming_rounds
    (fun _ _ => trivial) hreaches).1
  rw [Discipline.keeps_concat, naming_foldl] at hkeeps
  have hintroduced : Introduced made id := hkeeps.2 id hid
  exact hrun.exists_of_introduced hown (hintroduced.mono (List.prefix_append _ _))

/-- An operation that fails because a thread was admitted twice names one that is there, unless it
was a callback that failed. -/
theorem exists_of_failed {failure : Failure} (hrun : Runs start history world flows)
    (hown : (Journal.ofHistory history).own number = .started operation :: story)
    (hmem : .finished operation (.error failure) ∈ story) (hid : failure.thread? = some id) :
    (∃ thread, world.threadId? thread = some id) ∨
      ∃ callback, .answered callback (.error failure) ∈ story := by
  obtain ⟨steps, rfl, hreaches⟩ := hrun.reaches_of_finished hown hmem
  have hends := ((operation.program_cites [] [] nofun).of_reaches naming_rounds
    (fun _ _ => trivial) hreaches).2
  rw [naming_foldl] at hends
  obtain ⟨_, hfails⟩ := hends
  refine (hfails failure rfl).imp (fun hknown => ?_) fun hpassed => ?_
  · exact hrun.exists_of_introduced hown ((hknown id hid).mono (List.prefix_append _ _))
  · exact hpassed.imp fun _ hanswered => List.mem_append_left _ hanswered

end Runs

end CoreEngines
