import CoreEngines.Proofs.Footprints

/-!
Batches.  An admission takes a batch of threads from a registry, hands each to the manager, and
records its name before it hands on the next.  Here each operation is followed through its batches;
a callback that runs in between has its own.
-/

namespace CoreEngines

def Failure.saysTwice : Failure → Bool
  | .violation (.admittedTwice _) => true
  | _ => false

def Happening.saysTwice : Happening → Bool
  | .answered _ (.error failure) => failure.saysTwice
  | _ => false

/-- What an operation has in its hands: a thread that it has made and not yet recorded, the
threads that it has drained and not yet handed to the manager, and the last one handed with the
name that is still to be recorded. -/
structure Batch where
  operation : Operation
  fresh : List (Ref .thread)
  waiting : List (Ref .thread)
  naming : Option (Ref .thread × SchedRef)
  /-- All threads drained so far, -/
  drained : List (Ref .thread)
  /-- and those of them that were handed to the manager. -/
  handed : List (Ref .thread)
  /-- Whether a callback has failed, -/
  failed : Bool
  /-- and whether one has said that a thread was admitted twice. -/
  blamed : Bool
  /-- Whether a name was refused. -/
  refused : Bool

namespace Batch

/-- No drained thread is waiting, and no name. -/
def Clear (batch : Batch) : Prop :=
  batch.waiting = [] ∧ batch.naming = none

/-- What an operation has in its hands when it starts. -/
def start (operation : Operation) : Batch where
  operation := operation
  fresh := []
  waiting := []
  naming := match operation with
    | .bind thread sched => some (thread, sched)
    | _ => none
  drained := []
  handed := []
  failed := false
  blamed := false
  refused := false

/-- What threads a step takes up or passes on. -/
def pass (batch : Batch) : Happening → Batch
  | .acted (.newThread _ _) thread => { batch with fresh := batch.fresh ++ [thread] }
  | .acted (.registry _ (.enroll thread)) _ => { batch with fresh := batch.fresh.erase thread }
  | .acted (.registry _ .detach) threads =>
      { batch with
        waiting := batch.waiting ++ threads.toList
        drained := batch.drained ++ threads.toList }
  | .acted (.thread _ (.bind _)) first =>
      { batch with naming := none, refused := batch.refused || !first }
  | .answered (.schedule _ _ thread) result =>
      { batch with
        waiting := batch.waiting.tail
        naming := result.toOption.map fun sched => (thread, sched)
        handed := batch.handed ++ [thread] }
  | _ => batch

def observe (batch : Batch) (happening : Happening) : Batch :=
  { batch.pass happening with
    failed := batch.failed || happening.fails
    blamed := batch.blamed || happening.saysTwice }

/-- What an operation may do with what it has in its hands. -/
def Allows (batch : Batch) : Happening → Prop
  | .acted (.newThread _ _) _ => batch.fresh = []
  | .acted (.registry _ (.enroll thread)) _ => batch.fresh = [thread]
  | .acted (.registry _ .detach) _ => batch.Clear
  | .acted (.thread thread (.bind sched)) _ => batch.naming = some (thread, sched)
  | .answered (.schedule _ name thread) _ =>
      name = "" ∧ batch.naming = none ∧ ∃ rest, batch.waiting = thread :: rest
  | .reported (.batchAdmitted _ _) => batch.Clear
  | _ => True

/-- An operation that returns a value has nothing left in its hands, and after a failure it has
only if a callback failed or a name was refused. -/
def Ends {α : Type} (batch : Batch) : Except Failure α → Prop
  | .ok _ => batch.Clear
  | .error _ => batch.Clear ∨ batch.failed ∨ batch.refused

/-- Who says that a thread was admitted twice has heard it from a callback, or has been refused. -/
def Blames {α : Type} (batch : Batch) : Except Failure α → Prop
  | .ok _ => True
  | .error failure => failure.saysTwice → batch.blamed ∨ batch.refused

structure Steady (operation : Operation) (batch : Batch) : Prop where
  operation : batch.operation = operation
  fresh : batch.fresh = []
  clear : batch.Clear

/-- What is left in the hands of the operation goes with how this part of it ended. -/
structure Settles {α : Type} (operation : Operation) (batch : Batch)
    (result : Except Failure α) : Prop where
  operation : batch.operation = operation
  fresh : batch.fresh = []
  ends : batch.Ends result
  blames : batch.Blames result

section
variable {α : Type} {operation : Operation} {batch : Batch}

theorem Steady.ends (hsteady : batch.Steady operation) (result : Except Failure α) :
    batch.Ends result := by
  cases result with
  | ok value => exact hsteady.clear
  | error failure => exact Or.inl hsteady.clear

theorem Steady.settles (hsteady : batch.Steady operation) {result : Except Failure α}
    (hblames : batch.Blames result) : batch.Settles operation result :=
  ⟨hsteady.operation, hsteady.fresh, hsteady.ends result, hblames⟩

theorem Settles.steady {value : α} (hsettles : batch.Settles operation (.ok value)) :
    batch.Steady operation :=
  ⟨hsettles.operation, hsettles.fresh, hsettles.ends⟩

theorem Settles.fail {β : Type} {failure : Failure}
    (hsettles : batch.Settles operation (.error failure : Except Failure α)) :
    batch.Settles operation (.error failure : Except Failure β) :=
  ⟨hsettles.operation, hsettles.fresh, hsettles.ends, hsettles.blames⟩

end

end Batch

/-- Operations that take staged threads away and hand them to their caller. -/
def Operation.takes : Operation → Bool
  | takeStaged _ | takeStagedLocked _ => true
  | _ => false

/-- The operations that have nothing to do with admissions. -/
def Operation.plain : Operation → Bool
  | create _ | takeStaged _ | takeStagedLocked _ | bind _ _ | admitStaged _ | run _ | enter _ =>
      false
  | _ => true

def Operation.Counts : (operation : Operation) → Batch → Except Failure operation.Reply → Prop
  | admitStaged _, batch, .ok count => count = batch.drained.length ∧ batch.handed = batch.drained
  | _, _, _ => True

/-- The operations that say for themselves whom they blame. -/
def Operation.admits : Operation → Bool
  | admitStaged _ | run _ => true
  | _ => false

/-- The discipline of admissions. -/
def admitting : Discipline Batch where
  start := Batch.start
  observe := Batch.observe
  Allows := Batch.Allows
  Presumes _ _ := True
  Enters _ batch := batch.Steady batch.operation
  Leaves procedure batch later result :=
    match procedure with
    | .runLoop _ => later.Settles batch.operation result
    | _ => later.Steady batch.operation
  Returns operation batch result :=
    batch.operation = operation ∧ (operation.takes = false → batch.Ends result) ∧
      (operation.admits → batch.Blames result) ∧ operation.Counts batch result

/-- Whether a step has nothing to do with admissions. -/
def Happening.Plain : Happening → Prop
  | .acted (.newThread _ _) _ | .acted (.registry _ (.enroll _)) _
  | .acted (.registry _ .detach) _ | .acted (.thread _ (.bind _)) _
  | .answered (.schedule _ _ _) _ | .called (.runLoop _) => False
  | _ => True

/-- The steps that have to do with admissions, one by one, and all others. -/
theorem Happening.cases_plain {motive : Happening → Prop}
    (newThread : ∀ id mailbox thread, motive (.acted (.newThread id mailbox) thread))
    (enroll : ∀ registry thread count, motive (.acted (.registry registry (.enroll thread)) count))
    (detach : ∀ registry threads, motive (.acted (.registry registry .detach) threads))
    (bind : ∀ thread sched first, motive (.acted (.thread thread (.bind sched)) first))
    (schedule : ∀ manager name thread result,
      motive (.answered (.schedule manager name thread) result))
    (runLoop : ∀ context, motive (.called (.runLoop context)))
    (plain : ∀ happening : Happening, happening.Plain → motive happening)
    (happening : Happening) : motive happening := by
  by_cases hplain : happening.Plain
  · exact plain happening hplain
  · unfold Plain at hplain
    split at hplain
    · exact newThread _ _ _
    · exact enroll _ _ _
    · exact detach _ _
    · exact bind _ _ _
    · exact schedule _ _ _ _
    · exact runLoop _
    · exact absurd trivial hplain

namespace Batch

variable {operation : Operation} {batch : Batch} {happening : Happening}

theorem pass_of_plain (hplain : happening.Plain) : batch.pass happening = batch := by
  unfold pass
  split <;> first | rfl | exact hplain.elim

theorem allows_of_plain (hplain : happening.Plain)
    (hclear : ∀ event, happening = .reported event → batch.Clear) : batch.Allows happening := by
  unfold Allows
  split <;> first | trivial | exact hclear _ rfl

theorem Steady.plain (hsteady : batch.Steady operation) (hplain : happening.Plain) :
    (batch.observe happening).Steady operation := by
  rw [observe, pass_of_plain hplain]
  exact ⟨hsteady.operation, hsteady.fresh, hsteady.clear⟩

end Batch

section
variable {α : Type} {operation : Operation} {batch : Batch}

/-- An action that has nothing to do with admissions changes nothing. -/
theorem perform_admitting {action : Action} {next : action.Answer → Program α}
    {post : Batch → Except Failure α → Prop}
    (hplain : ∀ answer, (Happening.acted action answer).Plain)
    (hnext : ∀ answer, (next answer).Ensures admitting batch post) :
    Program.Ensures admitting (Program.perform action >>= next) batch post := by
  rw [Program.ensures_bind]
  intro answer _
  have hsame : admitting.observe batch (.acted action answer) = batch := by
    simp [admitting, Batch.observe, Batch.pass_of_plain (hplain answer), Happening.fails,
      Happening.saysTwice]
  refine ⟨Batch.allows_of_plain (hplain answer) (by simp), ?_⟩
  rw [hsame]
  exact hnext answer

theorem report_admitting (event : TraceEvent) {post : Batch → Except Failure Unit → Prop}
    (hclear : batch.Clear) (hpost : post batch (.ok ())) :
    (Program.report event).Ensures admitting batch post := by
  intro _
  have hsame : admitting.observe batch (.reported event) = batch := by
    simp [admitting, Batch.observe, Batch.pass, Happening.fails, Happening.saysTwice]
  refine ⟨Batch.allows_of_plain trivial fun _ _ => hclear, ?_⟩
  rw [hsame]
  exact hpost

theorem plain_admitting {program : Program α} (hplain : program.Within Happening.Plain)
    (hsteady : batch.Steady operation) :
    program.Ensures admitting batch fun later _ => later.Steady operation := by
  apply hplain.ensures hsteady
  · exact fun state happening hstate hhappening =>
      ⟨Batch.allows_of_plain hhappening fun _ _ => hstate.clear, hstate.plain hhappening⟩
  · intro procedure state hstate hprocedure
    obtain rfl := hstate.operation
    refine ⟨hstate, fun later result hlater => ?_⟩
    cases procedure with
    | runLoop context => exact hprocedure.elim
    | _ => exact hlater

/-- Binding a thread under the name that it has just been given. -/
theorem bind_admitting {thread : Ref .thread} {sched : SchedRef}
    (hnaming : batch.naming = some (thread, sched)) :
    (Thread.bind thread sched).Ensures admitting batch fun later result =>
      match result with
      | .ok _ => later = { batch with naming := none }
      | .error _ => later.operation = batch.operation ∧ later.fresh = batch.fresh ∧
          later.drained = batch.drained ∧ later.refused := by
  simp only [Thread.bind, Program.ensures_bind, Program.ensures_perform]
  intro first _
  refine ⟨hnaming, ?_⟩
  cases first with
  | true => simp [admitting, Batch.observe, Batch.pass, Happening.fails, Happening.saysTwice]
  | false => simp [admitting, Batch.observe, Batch.pass, Batch.Allows]

/-- Handing over the threads that wait, one after the other. -/
theorem admitEach_admitting (manager : ManagerRef) {threads : List (Ref .thread)}
    (hwaiting : batch.waiting = threads) (hnaming : batch.naming = none)
    (hfresh : batch.fresh = []) :
    (Context.admitEach manager threads).Ensures admitting batch fun later result =>
      later.Settles batch.operation result ∧ later.drained = batch.drained ∧
        (result = .ok () → later.handed = batch.handed ++ threads) := by
  induction threads generalizing batch with
  | nil => exact ⟨⟨rfl, hfresh, ⟨hwaiting, hnaming⟩, trivial⟩, rfl, fun _ => by simp⟩
  | cons thread threads ih =>
      simp only [Context.admitEach, Program.ensures_bind, Program.ensures_request]
      intro answer _
      refine ⟨⟨rfl, hnaming, threads, hwaiting⟩, ?_⟩
      cases answer with
      | error failure =>
          refine ⟨⟨rfl, hfresh, Or.inr (Or.inl ?_), fun htwice => Or.inl ?_⟩, rfl, by simp⟩
          · simp [admitting, Batch.observe, Happening.fails]
          · simp [admitting, Batch.observe, Happening.saysTwice, htwice]
      | ok sched =>
          simp only [Program.ensures_perform, Program.ensures_report]
          rintro id -
          refine ⟨trivial, fun _ => ⟨trivial, (bind_admitting rfl).mono ?_⟩⟩
          rintro later (failure | _) hlater
          · obtain ⟨hoperation, hfresh', hdrained, hrefused⟩ := hlater
            exact ⟨⟨hoperation, hfresh'.trans hfresh, Or.inr (Or.inr hrefused),
              fun _ => Or.inr hrefused⟩, hdrained, by simp⟩
          · subst hlater
            have htail : batch.waiting.tail = threads := by rw [hwaiting]; rfl
            refine Program.Ensures.mono (ih ?_ rfl ?_) ?_
            · exact htail
            · exact hfresh
            rintro later result ⟨hsettles, hdrained, hhanded⟩
            refine ⟨hsettles, hdrained, fun hok => ?_⟩
            simpa [admitting, Batch.observe, Batch.pass] using hhanded hok

theorem takeStagedLocked_admitting (registry : Ref .registry) (hclear : batch.Clear) :
    (Registry.takeStagedLocked registry).Ensures admitting batch fun later result =>
      ∃ threads : Array (Ref .thread), result = .ok threads ∧
        later = { batch with
          waiting := batch.waiting ++ threads.toList
          drained := batch.drained ++ threads.toList } := by
  simp only [Registry.takeStagedLocked, Program.ensures_locked, Program.ensures_perform]
  rintro -
  refine ⟨trivial, fun threads _ => ⟨hclear, fun _ => ⟨trivial, threads, rfl, ?_⟩⟩⟩
  simp [admitting, Batch.observe, Batch.pass, Happening.fails, Happening.saysTwice]

theorem takeStaged_admitting (registry : Ref .registry) (hclear : batch.Clear) :
    (Registry.takeStaged registry).Ensures admitting batch fun later result =>
      ∃ threads : Array (Ref .thread), result = .ok threads ∧
        later = { batch with
          waiting := batch.waiting ++ threads.toList
          drained := batch.drained ++ threads.toList } := by
  rw [Registry.takeStaged]
  refine perform_admitting (fun _ => trivial) fun count => ?_
  split
  · exact ⟨#[], rfl, by simp⟩
  · exact takeStagedLocked_admitting registry hclear

/-- What an admission does with a batch: it answers how many threads it took and handed over. -/
theorem admitStaged_admitting (context : Ref .context) (hsteady : batch.Steady operation) :
    (Context.admitStaged context).Ensures admitting batch fun later result =>
      later.Settles operation result ∧
        ∀ count, result = .ok count → ∃ threads : List (Ref .thread), count = threads.length ∧
          later.drained = batch.drained ++ threads ∧ later.handed = batch.handed ++ threads := by
  rw [Context.admitStaged]
  refine perform_admitting (fun _ => trivial) fun shape => ?_
  apply (takeStaged_admitting shape.registry hsteady.clear).bind _ (by simp)
  rintro _ threads ⟨_, ⟨⟩, rfl⟩
  obtain ⟨hwaiting, hnaming⟩ := hsteady.clear
  split
  case isTrue hempty =>
    obtain rfl : threads = #[] := Array.isEmpty_iff.mp hempty
    refine ⟨⟨hsteady.operation, hsteady.fresh, ⟨by simp [hwaiting], hnaming⟩, trivial⟩, ?_⟩
    rintro count hcount
    cases hcount
    exact ⟨[], rfl, by simp, by simp⟩
  case isFalse =>
    obtain rfl := hsteady.operation
    refine Program.Ensures.bind
      (admitEach_admitting shape.manager ?_ hnaming hsteady.fresh) ?_ ?_
    · simp [hwaiting]
    · rintro later _ ⟨hsettles, hdrained, hhanded⟩
      rw [Program.ensures_bind]
      refine report_admitting _ hsettles.ends ⟨hsettles.steady.settles trivial, ?_⟩
      rintro count hcount
      cases hcount
      exact ⟨threads.toList, rfl, hdrained, hhanded rfl⟩
    · rintro later failure ⟨hsettles, _⟩
      exact ⟨hsettles.fail, by simp⟩

/-- A callback that is asked while nothing is in the hands of the operation. -/
theorem request_admitting (callback : Callback)
    (hplain : ∀ result, (Happening.answered callback result).Plain)
    (hsteady : batch.Steady operation) :
    (Program.request callback).Ensures admitting batch fun later result =>
      later.Steady operation ∧ later.Blames result := by
  rw [Program.ensures_request]
  intro result _
  refine ⟨Batch.allows_of_plain (hplain result) (by simp), hsteady.plain (hplain result), ?_⟩
  cases result with
  | ok answer => exact trivial
  | error failure =>
      intro htwice
      simp [admitting, Batch.observe, Happening.saysTwice, htwice]

theorem runLoop_admitting (context : Ref .context) (hsteady : batch.Steady operation) :
    (Program.invoke (.runLoop context)).Ensures admitting batch fun later result =>
      later.Settles operation result := by
  rw [Program.ensures_invoke]
  intro _
  have hcalled : (admitting.observe batch (.called (.runLoop context))).Steady operation :=
    ⟨hsteady.operation, hsteady.fresh, hsteady.clear⟩
  obtain rfl := hcalled.operation
  exact ⟨trivial, hcalled, fun later result hlater => hlater⟩

theorem loopStep_admitting (context : Ref .context) (hsteady : batch.Steady operation) :
    (Context.loopStep context).Ensures admitting batch fun later result =>
      later.Settles operation result := by
  rw [Context.loopStep]
  refine perform_admitting (fun _ => trivial) fun shape => ?_
  refine (request_admitting (.runQuantum shape.manager) (fun _ => trivial) hsteady).bind ?_ ?_
  · rintro later quantum ⟨hsteady, _⟩
    cases quantum with
    | exit => exact hsteady.settles trivial
    | proceed =>
        dsimp only
        split
        · exact runLoop_admitting context hsteady
        · refine (admitStaged_admitting context hsteady).bind ?_ ?_
          · rintro later count ⟨hsettles, _⟩
            exact runLoop_admitting context hsettles.steady
          · rintro later failure ⟨hsettles, _⟩
            exact hsettles.fail
  · rintro later failure ⟨hsteady, hblames⟩
    exact hsteady.settles hblames

theorem run_admitting (context : Ref .context) (hsteady : batch.Steady operation) :
    (Context.run context).Ensures admitting batch fun later result =>
      later.Settles operation result := by
  rw [Context.run]
  refine (admitStaged_admitting context hsteady).bind ?_ ?_
  · rintro later count ⟨hsettles, _⟩
    refine perform_admitting (fun _ => trivial) fun shape => ?_
    refine (request_admitting (.hasThreads shape.manager) (fun _ => trivial)
      hsettles.steady).bind ?_ ?_
    · rintro later ready ⟨hsteady, _⟩
      cases ready with
      | false => exact hsteady.settles (by simp [Batch.Blames, Failure.saysTwice])
      | true =>
          simp only [if_pos]
          rw [Program.ensures_bind]
          apply report_admitting _ hsteady.clear
          apply (runLoop_admitting context hsteady).bind
          · intro later _ hsettles
            exact report_admitting _ hsettles.ends hsettles
          · intro later failure hsettles
            exact hsettles
    · rintro later failure ⟨hsteady, hblames⟩
      exact hsteady.settles hblames
  · rintro later failure ⟨hsettles, _⟩
    exact hsettles.fail

/-- What touches neither threads nor registries has nothing to do with admissions. -/
theorem plain_of_touches {program : Program α} {kinds : List Kind}
    (htouches : program.Touches kinds) (hthread : Kind.thread ∉ kinds)
    (hregistry : Kind.registry ∉ kinds) : program.Within Happening.Plain := by
  apply Program.Within.mono htouches
  intro happening hhappening
  unfold Happening.Plain
  split
  · exact hthread (hhappening _ rfl)
  · exact hregistry (hhappening _ rfl)
  · exact hregistry (hhappening _ rfl)
  · exact hthread (hhappening _ rfl)
  · exact hthread (hhappening _ rfl)
  · exact hthread (hhappening (by simp [Procedure.kinds]))
  · trivial

theorem plain_of_behaves {program : Program α} {topics : List Topic}
    (hprogram : program.Behaves topics)
    (htopics : ∀ topic ∈ topics, topic.kind? ≠ some .thread ∧ topic.kind? ≠ some .registry) :
    program.Within Happening.Plain := by
  have htouches : program.Touches (topics.filterMap Topic.kind?) :=
    hprogram.touches fun topic htopic kind hkind => List.mem_filterMap.2 ⟨topic, htopic, hkind⟩
  apply plain_of_touches htouches
  · intro hthread
    obtain ⟨topic, htopic, hkind⟩ := List.mem_filterMap.1 hthread
    exact (htopics topic htopic).1 hkind
  · intro hregistry
    obtain ⟨topic, htopic, hkind⟩ := List.mem_filterMap.1 hregistry
    exact (htopics topic htopic).2 hkind

theorem withStorage_plain {α : Type} (thread : Ref .thread)
    (use : LocalStorage → α × LocalStorage) :
    (Thread.withStorage thread use).Within Happening.Plain := by
  refine Program.Within.locked ?_ trivial trivial
  apply Program.Within.bind (Program.Within.perform fun _ => trivial)
  intro storage
  exact Program.Within.bind (Program.Within.perform fun _ => trivial) fun _ => Program.Within.pure _

theorem use_plain {α : Type} (slot : StorageSlot) (use : LocalStorage → α × LocalStorage) :
    (slot.use use).Within Happening.Plain := by
  cases slot with
  | thread target => exact withStorage_plain target use
  | bootstrap engine =>
      refine Program.Within.locked ?_ trivial trivial
      apply Program.Within.bind (Program.Within.perform fun _ => trivial)
      intro storage
      exact Program.Within.bind (Program.Within.perform fun _ => trivial) fun _ =>
        Program.Within.pure _

theorem storageSlot_plain (engine : Ref .engine) :
    (Engine.storageSlot engine).Within Happening.Plain :=
  plain_of_behaves (Engine.storageSlot_behaves engine) (by decide)

/-- A new thread is in the hands of its creator until it is recorded. -/
theorem create_admitting (registry : Ref .registry) (hsteady : batch.Steady operation) :
    (Registry.create registry).Ensures admitting batch fun later _ => later.Steady operation := by
  rw [Registry.create]
  refine perform_admitting (fun _ => trivial) fun shape => ?_
  have hclaim : (SerialCounter.claim shape.counter).Within Happening.Plain :=
    plain_of_behaves (SerialCounter.claim_behaves shape.counter) (by decide)
  have hmake : (Mailbox.make shape.reserve).Within Happening.Plain :=
    plain_of_behaves (Mailbox.make_behaves shape.reserve) (by decide)
  refine (plain_admitting hclaim hsteady).bind ?_ fun _ _ hsteady => hsteady
  intro later serial hsteady
  refine (plain_admitting hmake hsteady).bind ?_ fun _ _ hsteady => hsteady
  intro later mailbox hsteady
  simp only [Program.ensures_bind, Program.ensures_perform, Program.ensures_locked,
    Program.ensures_report, Program.ensures_pure]
  rintro thread -
  refine ⟨hsteady.fresh, fun _ => ⟨trivial, ?_⟩⟩
  rintro count -
  refine ⟨?_, fun _ _ => ⟨trivial, fun _ => ⟨trivial, fun _ => ⟨trivial, ?_⟩⟩⟩⟩
  · change later.fresh ++ [thread] = [thread]
    rw [hsteady.fresh]
    rfl
  · refine ⟨hsteady.operation, ?_, hsteady.clear⟩
    change (later.fresh ++ [thread]).erase thread = []
    rw [hsteady.fresh]
    simp

/-- What an engine does after its entry leaves nothing in its hands. -/
theorem operate_admitting (engine : Ref .engine) (core : CoreId) (shape : EngineShape)
    (hsteady : batch.Steady operation) :
    (Engine.operate engine core shape).Ensures admitting batch fun later result =>
      later.operation = operation ∧ later.Ends result := by
  have hends : ∀ later : Batch, ∀ result : Except Failure Unit, later.Steady operation →
      later.operation = operation ∧ later.Ends result := fun later result hsteady =>
    ⟨hsteady.operation, hsteady.ends result⟩
  unfold Engine.operate
  split
  · apply (request_admitting .halt (fun _ => trivial) hsteady).bind
    · intro later never
      cases never
    · intro later failure hlater
      exact hends later _ hlater.1
  · have hidle : (Program.invoke .idle).Within Happening.Plain := Program.Within.invoke trivial
    exact (plain_admitting hidle hsteady).mono hends
  · have hmake : (Engine.makeContext engine core shape).Within Happening.Plain :=
      plain_of_behaves (Engine.makeContext_behaves engine core shape) (by decide)
    apply (plain_admitting hmake hsteady).bind
    · intro later context hsteady
      exact (run_admitting context hsteady).mono fun later result hsettles =>
        ⟨hsettles.operation, hsettles.ends⟩
    · intro later failure hsteady
      exact hends later _ hsteady

theorem enter_admitting (engine : Ref .engine) (hsteady : batch.Steady operation) :
    (Engine.enter engine).Ensures admitting batch fun later result =>
      later.operation = operation ∧ later.Ends result := by
  rw [Engine.enter]
  refine perform_admitting (fun _ => trivial) fun shape => ?_
  refine perform_admitting (fun _ => trivial) fun entered => ?_
  cases entered with
  | true => exact ⟨hsteady.operation, hsteady.ends _⟩
  | false =>
      simp only [Bool.false_eq_true, if_false]
      refine perform_admitting (fun _ => trivial) fun context => ?_
      cases context with
      | some context => exact ⟨hsteady.operation, hsteady.ends _⟩
      | none =>
          apply (request_admitting .currentCore (fun _ => trivial) hsteady).bind
          · rintro later core ⟨hsteady, _⟩
            split
            · rw [Program.ensures_bind]
              exact report_admitting _ hsteady.clear (operate_admitting engine core shape hsteady)
            · exact ⟨hsteady.operation, hsteady.ends _⟩
          · rintro later failure ⟨hsteady, _⟩
            exact ⟨hsteady.operation, hsteady.ends _⟩

theorem Operation.program_plain {operation : Operation} (hplain : operation.plain) :
    operation.program.Within Happening.Plain := by
  have htouches := operation.program_touches
  cases operation with
  | threads registry =>
      exact Program.Within.locked (Program.Within.perform fun _ => trivial) trivial trivial
  | setStatus thread status => exact Program.Within.perform fun _ => trivial
  | storage thread command => exact withStorage_plain thread _
  | localGet engine key =>
      exact Program.Within.bind (storageSlot_plain engine) fun slot => use_plain slot _
  | localSet engine key value =>
      exact Program.Within.bind (storageSlot_plain engine) fun slot =>
        Program.Within.bind (use_plain slot _) fun _ => Program.Within.pure _
  | create registry | takeStaged registry | takeStagedLocked registry | bind thread sched
  | admitStaged context | run context | enter engine => cases hplain
  | _ => exact plain_of_touches htouches (by simp [kinds]) (by simp [kinds])

theorem start_steady {operation : Operation} (hoperation : ∀ thread sched,
    operation ≠ .bind thread sched) : (Batch.start operation).Steady operation := by
  refine ⟨rfl, rfl, rfl, ?_⟩
  cases operation with
  | bind thread sched => exact absurd rfl (hoperation thread sched)
  | _ => rfl

/-- All operations and procedures keep to the discipline of admissions. -/
theorem admitting_obeyed : admitting.Obeyed where
  operations operation := by
    by_cases hplain : operation.plain
    · have hsteady : (Batch.start operation).Steady operation :=
        start_steady (by rintro _ _ rfl; cases hplain)
      apply (plain_admitting (Operation.program_plain hplain) hsteady).mono
      intro later result hsteady
      refine ⟨hsteady.operation, fun _ => hsteady.ends result, fun hadmits => ?_, ?_⟩
      · cases operation <;> simp_all [Operation.plain, Operation.admits]
      · cases operation <;> simp_all [Operation.plain, Operation.Counts]
    · cases operation with
      | create registry =>
          apply (create_admitting registry (start_steady (by simp))).mono
          exact fun later result hsteady =>
            ⟨hsteady.operation, fun _ => hsteady.ends result, by simp [Operation.admits], trivial⟩
      | takeStaged registry =>
          apply (takeStaged_admitting registry ⟨rfl, rfl⟩).mono
          rintro _ _ ⟨threads, rfl, rfl⟩
          exact ⟨rfl, by simp [Operation.takes], by simp [Operation.admits], trivial⟩
      | takeStagedLocked registry =>
          apply (takeStagedLocked_admitting registry ⟨rfl, rfl⟩).mono
          rintro _ _ ⟨threads, rfl, rfl⟩
          exact ⟨rfl, by simp [Operation.takes], by simp [Operation.admits], trivial⟩
      | bind thread sched =>
          apply (bind_admitting rfl).mono
          rintro later (failure | _) hlater
          · exact ⟨hlater.1, fun _ => Or.inr (Or.inr hlater.2.2.2), by simp [Operation.admits],
              trivial⟩
          · subst hlater
            exact ⟨rfl, fun _ => ⟨rfl, rfl⟩, by simp [Operation.admits], trivial⟩
      | admitStaged context =>
          apply (admitStaged_admitting context (start_steady (by simp))).mono
          rintro later result ⟨hsettles, hcounts⟩
          refine ⟨hsettles.operation, fun _ => hsettles.ends, fun _ => hsettles.blames, ?_⟩
          cases result with
          | error failure => exact trivial
          | ok count =>
              obtain ⟨threads, hcount, hdrained, hhanded⟩ := hcounts count rfl
              change count = later.drained.length ∧ later.handed = later.drained
              rw [hdrained, hhanded]
              exact ⟨hcount, rfl⟩
      | run context =>
          apply (run_admitting context (start_steady (by simp))).mono
          exact fun later result hsettles =>
            ⟨hsettles.operation, fun _ => hsettles.ends, fun _ => hsettles.blames, trivial⟩
      | enter engine =>
          apply (enter_admitting engine (start_steady (by simp))).mono
          exact fun later result hends =>
            ⟨hends.1, fun _ => hends.2, by simp [Operation.admits], trivial⟩
      | _ => exact absurd rfl hplain
  procedures procedure state hsteady := by
    cases procedure with
    | claimSerial counter seen =>
        have hstep := plain_of_behaves (SerialCounter.claimStep_behaves counter seen) (by decide)
        exact plain_admitting hstep hsteady
    | runLoop context => exact loopStep_admitting context hsteady
    | idle =>
        exact plain_admitting (plain_of_behaves Engine.idleStep_behaves (by decide)) hsteady

end

end CoreEngines
