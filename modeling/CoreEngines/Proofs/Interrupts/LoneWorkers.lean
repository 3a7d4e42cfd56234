import CoreEngines.Proofs.Interrupts.Workers
import CoreEngines.Proofs.Permanence
import Mathlib.Data.List.Induction

/-!
Workers on their own.  In a world with room for it a worker that nobody disturbs comes to the end of
all its chores.
-/

namespace CoreEngines

/-- A world in which there are so many mailboxes, registries and counters. -/
structure World.Serves (world : World) (count : Nat) : Prop where
  counters : count ≤ world.counters.size
  mailboxes : count ≤ world.mailboxes.size
  registries : ∀ target : Ref .registry, target.index < count →
    ∃ shape, world.registryShape? target = some shape ∧ shape.counter.index < count

def World.roomy (count : Nat) : World where
  counters := Array.replicate count .initial
  mailboxes := Array.replicate count (.new 0)
  registries := Array.replicate count (.new ⟨0⟩ 0 ⟨0⟩)

namespace World

variable {world later : World} {count : Nat} {action : Action} {answer : action.Answer}

theorem serves_roomy (count : Nat) : (roomy count).Serves count where
  counters := by simp [roomy]
  mailboxes := by simp [roomy]
  registries target hindex := by
    refine ⟨⟨⟨0⟩, 0, ⟨0⟩⟩, ?_, Nat.lt_of_le_of_lt (Nat.zero_le _) hindex⟩
    simp [registryShape?, registryAt?, roomy, hindex, Registry.new, Registry.shape]

theorem Serves.after (hserves : world.Serves count)
    (hperform : world.perform? action = some (answer, later)) : later.Serves count := by
  have houtlasts : world.Outlasts later :=
    outlasts_after (show world.After (.acted action answer) later from hperform)
  refine ⟨?_, ?_, fun target hindex => ?_⟩
  · refine Nat.le_trans hserves.counters ?_
    cases effect_of_perform? hperform <;> simp
  · refine Nat.le_trans hserves.mailboxes ?_
    cases effect_of_perform? hperform <;> simp
  · obtain ⟨shape, hshape, hcounter⟩ := hserves.registries target hindex
    exact ⟨shape, houtlasts.registries hshape, hcounter⟩

theorem held_of_perform? (hperform : world.perform? action = some (answer, later))
    (hlock : action.lock? = none) : later.held = world.held := by
  cases effect_of_perform? hperform <;> first | rfl | cases hlock

end World

/-- What a worker comes to that nobody disturbs, when it follows a program in a world. -/
inductive Program.Comes {α : Type} : World → HostedCore → Program α → Except Failure α → World →
    HostedCore → Prop
  | done {world : World} {hosted : HostedCore} (result : Except Failure α) :
      Comes world hosted (.done result) result world hosted
  | act {world middle later : World} {hosted hosted' : HostedCore} {action : Action}
      {answer : action.Answer} {next : action.Answer → Program α} {result : Except Failure α}
      (hperform : world.perform? action = some (answer, middle))
      (hnext : Comes middle hosted (next answer) result later hosted') :
      Comes world hosted (.act action next) result later hosted'
  | emit {world later : World} {hosted hosted' : HostedCore} {event : TraceEvent}
      {next : Program α} {result : Except Failure α}
      (hnext : Comes world hosted next result later hosted') :
      Comes world hosted (.emit event next) result later hosted'
  | choose {world later : World} {hosted hosted' : HostedCore} {next : Bool → Program α}
      {result : Except Failure α} (choice : Bool)
      (hnext : Comes world hosted (next choice) result later hosted') :
      Comes world hosted (.choose next) result later hosted'
  | ask {world later : World} {hosted middle hosted' : HostedCore} {callback : Callback}
      {answer : callback.Answer} {next : Except Failure callback.Answer → Program α}
      {result : Except Failure α} (hanswer : hosted.answer? callback = some (answer, middle))
      (hnext : Comes world middle (next (.ok answer)) result later hosted') :
      Comes world hosted (.ask callback next) result later hosted'
  | call {world later : World} {hosted hosted' : HostedCore} {procedure : Procedure}
      {next : Except Failure procedure.Answer → Program α} {result : Except Failure α}
      (hnext : Comes world hosted (procedure.code.andThen next) result later hosted') :
      Comes world hosted (.call procedure next) result later hosted'

namespace Program

variable {α β : Type} {world middle later : World} {hosted hosted' hosted'' : HostedCore}
  {program : Program α} {result : Except Failure α} {count : Nat} {held : List Lock}

theorem Comes.andThen {next : Except Failure α → Program β} {outcome : Except Failure β}
    (hfirst : program.Comes world hosted result middle hosted')
    (hsecond : (next result).Comes middle hosted' outcome later hosted'') :
    (program.andThen next).Comes world hosted outcome later hosted'' := by
  induction hfirst with
  | done result => exact hsecond
  | act hperform _ ih => exact .act hperform (ih hsecond)
  | emit _ ih => exact .emit (ih hsecond)
  | choose choice _ ih => exact .choose choice (ih hsecond)
  | ask hanswer _ ih => exact .ask hanswer (ih hsecond)
  | call _ ih =>
      have hcode := ih hsecond
      rw [andThen_assoc] at hcode
      exact .call hcode

/-- From every world with that much room in which these locks are held, the program comes to an end
in such a world. -/
def Ends (count : Nat) (held : List Lock) (program : Program α) : Prop :=
  ∀ (world : World) (hosted : HostedCore), world.Serves count → world.held = held →
    ∃ result later hosted', program.Comes world hosted result later hosted' ∧
      later.Serves count ∧ later.held = held

theorem Ends.done (result : Except Failure α) : (Program.done result).Ends count held :=
  fun _ hosted hserves hheld => ⟨result, _, hosted, .done result, hserves, hheld⟩

theorem Ends.andThen {next : Except Failure α → Program β} (hprogram : program.Ends count held)
    (hnext : ∀ result, (next result).Ends count held) :
    (program.andThen next).Ends count held := by
  intro world hosted hserves hheld
  obtain ⟨result, middle, inside, hfirst, hserves, hheld⟩ := hprogram world hosted hserves hheld
  obtain ⟨outcome, later, hosted', hsecond, hlater⟩ := hnext result middle inside hserves hheld
  exact ⟨outcome, later, hosted', hfirst.andThen hsecond, hlater⟩

theorem Ends.bind {next : α → Program β} (hprogram : program.Ends count held)
    (hnext : ∀ value, (next value).Ends count held) : (program >>= next).Ends count held := by
  refine hprogram.andThen fun result => ?_
  cases result with
  | ok value => exact hnext value
  | error failure => exact Ends.done _

theorem Ends.act {action : Action} {next : action.Answer → Program α}
    (hlock : action.lock? = none)
    (hready : ∀ {world : World}, world.Serves count → ∃ answer later,
      world.perform? action = some (answer, later) ∧ (next answer).Ends count held) :
    (Program.act action next).Ends count held := by
  intro world hosted hserves hheld
  obtain ⟨answer, middle, hperform, hnext⟩ := hready hserves
  obtain ⟨result, later, hosted', hcomes, hlater⟩ := hnext middle hosted (hserves.after hperform)
    ((World.held_of_perform? hperform hlock).trans hheld)
  exact ⟨result, later, hosted', .act hperform hcomes, hlater⟩

theorem Ends.ask {callback : Callback} {next : Except Failure callback.Answer → Program α}
    (hready : ∀ hosted : HostedCore, ∃ answer inside,
      hosted.answer? callback = some (answer, inside) ∧ (next (.ok answer)).Ends count held) :
    (Program.ask callback next).Ends count held := by
  intro world hosted hserves hheld
  obtain ⟨answer, inside, hanswer, hnext⟩ := hready hosted
  obtain ⟨result, later, hosted', hcomes, hlater⟩ := hnext world inside hserves hheld
  exact ⟨result, later, hosted', .ask hanswer hcomes, hlater⟩

theorem Ends.report (event : TraceEvent) : (report event).Ends count held :=
  fun _ hosted hserves hheld => ⟨.ok (), _, hosted, .emit (.done _), hserves, hheld⟩

/-- A lock that is free is taken, and given back. -/
theorem Ends.locked {lock : Lock} {body : Program α} (hfree : lock ∉ held)
    (hbody : body.Ends count (lock :: held)) : (locked lock body).Ends count held := by
  intro world hosted hserves hheld
  have hacquire : world.perform? (.acquire lock) =
      some ((), { world with held := lock :: world.held }) := by
    rw [World.perform?, if_neg (hheld ▸ hfree)]
  obtain ⟨result, inside, hosted', hcomes, hserves, hinside⟩ :=
    hbody _ hosted (hserves.after hacquire) (congrArg (lock :: ·) hheld)
  have hrelease : inside.perform? (.release lock) =
      some ((), { inside with held := inside.held.erase lock }) := rfl
  refine ⟨result, _, hosted', .act hacquire (hcomes.andThen (.act hrelease (.done result))),
    hserves.after hrelease, ?_⟩
  rw [hinside]
  simp

theorem Ends.masked {body : Program α} (hbody : body.Ends count held) :
    (masked body).Ends count held := by
  intro world hosted hserves hheld
  obtain ⟨result, inside, hosted', hcomes, hinside⟩ := hbody world hosted.mask.2 hserves hheld
  have hmask : hosted.answer? .mask = some hosted.mask := rfl
  have hrestore : hosted'.answer? (.restore hosted.enabled) =
      some ((), hosted'.restore hosted.enabled) := rfl
  exact ⟨result, inside, _, .ask hmask (hcomes.andThen (.ask hrestore (.done result))), hinside⟩

end Program

open Program

section
variable {α : Type} {count : Nat} {held : List Lock}

/-- A mailbox that is there is never waited for, -/
theorem Program.Ends.mailbox {place : Ref .mailbox} {access : Mailbox.Access}
    {next : access.Answer → Program α} (hplace : place.index < count)
    (hnext : ∀ answer, (next answer).Ends count held) :
    (Program.act (.mailbox place access) next).Ends count held := by
  refine Ends.act rfl fun {world} hserves => ?_
  have hinside := Nat.lt_of_lt_of_le hplace hserves.mailboxes
  generalize hmailbox : world.mailboxes[place.index] = mailbox
  refine ⟨(mailbox.access access).1, { world with
    mailboxes := world.mailboxes.setIfInBounds place.index (mailbox.access access).2 }, ?_,
    hnext _⟩
  simp [World.perform?, World.accessAt?_eq, hinside, hmailbox]

/-- and neither is a registry. -/
theorem Program.Ends.registry {place : Ref .registry} {access : Registry.Access}
    {next : access.Answer → Program α} (hplace : place.index < count)
    (hnext : ∀ registry : Registry, registry.shape.counter.index < count →
      (next (registry.access access).1).Ends count held) :
    (Program.act (.registry place access) next).Ends count held := by
  refine Ends.act rfl fun {world} hserves => ?_
  obtain ⟨_, hshape, hcounter⟩ := hserves.registries place hplace
  obtain ⟨registry, hregistry, rfl⟩ := Option.map_eq_some_iff.mp hshape
  rw [World.registryAt?] at hregistry
  refine ⟨(registry.access access).1, { world with
    registries := world.registries.setIfInBounds place.index (registry.access access).2 }, ?_,
    hnext registry hcounter⟩
  simp [World.perform?, World.accessAt?_eq, hregistry]

/-- A claim that nobody comes in between succeeds at once. -/
theorem SerialCounter.claim_ends {counter : Ref .counter} (hcounter : counter.index < count) :
    (claim counter).Ends count held := by
  intro world hosted hserves hheld
  have hinside := Nat.lt_of_lt_of_le hcounter hserves.counters
  generalize hobject : world.counters[counter.index] = object
  have hload : world.perform? (.counter counter .load) = some (object.word,
      { world with counters := world.counters.setIfInBounds counter.index object }) := by
    simp [World.perform?, World.accessAt?_eq, hinside, hobject, SerialCounter.access]
  generalize hmiddle : { world with
    counters := world.counters.setIfInBounds counter.index object } = middle at hload
  have hthere : middle.counters[counter.index]? = some object := by
    simp [← hmiddle, hinside]
  have hexchange : middle.perform?
      (.counter counter (.exchange object.word (Serial.after object.word))) = some (none,
        { middle with
          counters := middle.counters.setIfInBounds counter.index
            ⟨Serial.after object.word⟩ }) := by
    simp [World.perform?, World.accessAt?_eq, hthere, SerialCounter.access]
  have hserves' := (hserves.after hload).after hexchange
  have hheld' := (World.held_of_perform? hexchange rfl).trans
    ((World.held_of_perform? hload rfl).trans hheld)
  refine ⟨.ok object.word, _, hosted, ?_, hserves', hheld'⟩
  exact .act hload (.call (.choose false (.act hexchange (.done (.ok object.word)))))

namespace Mailbox

variable {place : Ref .mailbox}

theorem make_ends (reserve : Nat) : (make reserve).Ends count held := by
  refine Ends.act rfl fun {world} _ => ?_
  by_cases hroom : Slots.allocatable reserve
  · exact ⟨_, _, if_pos hroom, Ends.done _⟩
  · exact ⟨_, _, if_neg hroom, Ends.done _⟩

theorem push_ends (hplace : place.index < count) (message : Message) :
    (push place message).Ends count [] := by
  refine Ends.masked (Ends.locked (by simp) ?_)
  exact Ends.mailbox hplace fun length => Ends.mailbox hplace fun _ => Ends.done _

theorem capacity_ends (hplace : place.index < count) : (capacity place).Ends count [] :=
  Ends.masked (Ends.locked (by simp) (Ends.mailbox hplace fun _ => Ends.done _))

theorem detachAll_ends (hplace : place.index < count) : (detachAll place).Ends count held := by
  refine Ends.mailbox hplace fun length => ?_
  change (if _ then _ else _ : Program _).Ends count held
  split
  · exact Ends.done _
  · refine Ends.mailbox hplace fun messages => Ends.mailbox hplace fun replenished => ?_
    change (if _ then _ else _ : Program _).Ends count held
    split
    · exact Ends.mailbox hplace fun _ => Ends.done _
    · exact Ends.done _

theorem drainLocked_ends (hplace : place.index < count) :
    (drainLocked place).Ends count [] := by
  refine (Ends.masked (Ends.locked (by simp) (detachAll_ends hplace))).bind fun messages => ?_
  split
  · exact Ends.done _
  · exact (Ends.report _).bind fun _ => Ends.done _

theorem drain_ends (hplace : place.index < count) : (drain place).Ends count [] := by
  refine Ends.mailbox hplace fun queued => ?_
  change (if _ then _ else _ : Program _).Ends count []
  split
  · exact Ends.done _
  · exact drainLocked_ends hplace

end Mailbox

theorem Table.current_ends (table : Table) : table.current.Ends count held := by
  refine Ends.ask fun hosted => ⟨hosted.core, hosted, rfl, ?_⟩
  dsimp only [andThen]
  cases table.get? hosted.core <;> exact Ends.done _

theorem Registry.create_ends {registry : Ref .registry} (hregistry : registry.index < count) :
    (create registry).Ends count [] := by
  refine Ends.registry hregistry fun found hcounter => ?_
  refine (SerialCounter.claim_ends hcounter).bind fun serial => ?_
  refine (Mailbox.make_ends _).bind fun mailbox => ?_
  refine Ends.act rfl fun {world} _ => ⟨_, _, rfl, ?_⟩
  refine (Ends.locked (by simp) ?_).bind fun _ => ?_
  · exact Ends.registry hregistry fun _ _ => Ends.registry hregistry fun _ _ => Ends.done _
  · exact (Ends.report _).bind fun _ => Ends.done _

end

def Operation.bound : Operation → Nat
  | push place _ | drain place | drainLocked place | capacity place => place.index + 1
  | create registry => registry.index + 1
  | _ => 0

theorem Operation.errand_ends {operation : Operation} {count : Nat} (herrand : operation.isErrand)
    (hbound : operation.bound ≤ count) : operation.program.Ends count [] := by
  cases operation with
  | push place message => exact Mailbox.push_ends hbound message
  | drain place => exact Mailbox.drain_ends hbound
  | drainLocked place => exact Mailbox.drainLocked_ends hbound
  | capacity place => exact Mailbox.capacity_ends hbound
  | create registry => exact Registry.create_ends hbound
  | currentEngine table => exact table.current_ends
  | _ => cases herrand

theorem MaskScope.opened_ends {count : Nat} : opened.Ends count [] :=
  Ends.ask fun _ => ⟨_, _, rfl, Ends.done _⟩

theorem MaskScope.close_ends {count : Nat} (scope : MaskScope) : scope.close.Ends count [] :=
  Ends.ask fun _ => ⟨_, _, rfl, Ends.done _⟩

namespace Workers

variable {state state' : Workers} {world later : World} {worker worker' : Worker}
  {orders : List (Nat × Order)} {count : Nat} {chore : Chore}

theorem run?_append (state : Workers) (first second : List (Nat × Order)) :
    state.run? (first ++ second) = (state.run? first).bind (·.run? second) := by
  induction first generalizing state with
  | nil => rfl
  | cons head first ih =>
      obtain ⟨index, order⟩ := head
      simp only [List.cons_append, run?, ih, Option.bind_assoc]

theorem run?_alone (order : Order) (hmove : worker.move? world order = some (later, worker'))
    (hrest : run? ⟨later, #[worker']⟩ orders = some state) :
    run? ⟨world, #[worker]⟩ ((0, order) :: orders) = some state := by
  simp [run?, move?, hmove, hrest]

/-- The only worker there is comes to what its program comes to. -/
theorem run?_of_comes {operation : Operation} {program : Program operation.Reply}
    {result : Except Failure operation.Reply} {hosted hosted' : HostedCore} (chore : Chore)
    (scopes : List MaskScope) (log : List Observation)
    (hcomes : program.Comes world hosted result later hosted') :
    ∃ orders, run? ⟨world, #[⟨⟨hosted, scopes⟩, some (chore, ⟨operation, program⟩), log⟩]⟩ orders =
      some ⟨later, #[⟨⟨hosted', scopes⟩, some (chore, ⟨operation, .done result⟩), log⟩]⟩ := by
  induction hcomes with
  | done result => exact ⟨[], rfl⟩
  | act hperform _ ih =>
      obtain ⟨orders, hrest⟩ := ih
      exact ⟨_, run?_alone .step (by simp [Worker.move?, Program.advance?, hperform]) hrest⟩
  | emit _ ih =>
      obtain ⟨orders, hrest⟩ := ih
      exact ⟨_, run?_alone .step rfl hrest⟩
  | choose choice _ ih =>
      obtain ⟨orders, hrest⟩ := ih
      exact ⟨_, run?_alone (.choose choice) rfl hrest⟩
  | ask hanswer _ ih =>
      obtain ⟨orders, hrest⟩ := ih
      exact ⟨_, run?_alone .step (by simp [Worker.move?, hanswer]) hrest⟩
  | call _ ih =>
      obtain ⟨orders, hrest⟩ := ih
      exact ⟨_, run?_alone .step rfl hrest⟩

/-- The only worker there is has done these chores, and nothing is held in its world. -/
def Lone (count : Nat) (chores : List Chore) (state : Workers) : Prop :=
  ∃ world worker, state = ⟨world, #[worker]⟩ ∧ world.Serves count ∧ world.held = [] ∧
    worker.task = none ∧ worker.chores = chores

theorem lone_conclude {own : WorkerState} {word : Word} (hserves : world.Serves count)
    (hheld : world.held = []) :
    Lone count (worker.chores ++ [chore]) ⟨world, #[worker.conclude chore own word]⟩ :=
  ⟨world, _, rfl, hserves, hheld, rfl, by simp [Worker.chores, Worker.conclude]⟩

/-- An operation that a worker takes up alone it carries through. -/
theorem run?_of_ends {operation : Operation} {scopes : List MaskScope}
    (hserves : world.Serves count) (hheld : world.held = [])
    (htake : worker.take? chore =
      some ⟨⟨worker.hosted, scopes⟩, some (chore, .start operation), worker.log⟩)
    (hidle : worker.task = none) (hends : operation.program.Ends count []) :
    ∃ orders state, run? ⟨world, #[worker]⟩ orders = some state ∧
      Lone count (worker.chores ++ [chore]) state := by
  obtain ⟨result, later, hosted', hcomes, hserves', hheld'⟩ :=
    hends world worker.hosted hserves hheld
  obtain ⟨orders, horders⟩ := run?_of_comes chore scopes worker.log hcomes
  have hmove : worker.move? world (.take chore) =
      some (world, ⟨⟨worker.hosted, scopes⟩, some (chore, .start operation), worker.log⟩) := by
    simp [Worker.move?, hidle, htake]
  generalize hbusy :
    (⟨⟨hosted', scopes⟩, some (chore, ⟨operation, .done result⟩), worker.log⟩ : Worker) = busy
      at horders
  obtain ⟨own, word, hfinish⟩ : ∃ own word,
      busy.move? later .finish = some (later, busy.conclude chore own word) := by
    subst hbusy
    exact ⟨_, _, rfl⟩
  have hchores : busy.chores = worker.chores := by
    subst hbusy
    rfl
  refine ⟨(0, .take chore) :: (orders ++ [(0, .finish)]),
    ⟨later, #[busy.conclude chore own word]⟩, run?_alone _ hmove ?_,
    hchores ▸ lone_conclude hserves' hheld'⟩
  exact (run?_append _ _ _).trans ((congrArg (Option.bind · _) horders).trans
    (run?_alone _ hfinish rfl))

/-- A worker alone does whatever it can take up. -/
theorem run?_chore (hserves : world.Serves count) (hheld : world.held = [])
    (hidle : worker.task = none) (hfits : worker.toWorkerState.Fits chore)
    (hbound : ∀ operation, chore = .run operation → operation.bound ≤ count) :
    ∃ orders state, run? ⟨world, #[worker]⟩ orders = some state ∧
      Lone count (worker.chores ++ [chore]) state := by
  have honce : ∀ {own word}, worker.take? chore = some (worker.conclude chore own word) →
      ∃ orders state, run? ⟨world, #[worker]⟩ orders = some state ∧
        Lone count (worker.chores ++ [chore]) state := by
    intro own word htake
    have hmove : worker.move? world (.take chore) =
        some (world, worker.conclude chore own word) := by
      simp [Worker.move?, hidle, htake]
    exact ⟨[(0, .take chore)], ⟨world, #[worker.conclude chore own word]⟩,
      run?_alone _ hmove rfl, lone_conclude hserves hheld⟩
  cases chore with
  | bind core => exact honce rfl
  | save => exact honce rfl
  | restore previous => exact honce rfl
  | openScope => exact run?_of_ends hserves hheld rfl hidle MaskScope.opened_ends
  | closeScope place =>
      have hscope := List.getElem?_eq_getElem hfits
      exact run?_of_ends hserves hheld (by rw [Worker.take?, hscope]; rfl) hidle
        (MaskScope.close_ends _)
  | run operation =>
      exact run?_of_ends hserves hheld (if_pos hfits) hidle
        (operation.errand_ends hfits (hbound operation rfl))

/-- Whatever chores fit one after the other, a new worker does them all alone. -/
theorem exists_lone {chores : List Chore} (hfits : WorkerState.FitsAll {} chores)
    (hbound : ∀ operation, .run operation ∈ chores → operation.bound ≤ count) :
    ∃ orders state, (fresh (.roomy count) 1).run? orders = some state ∧
      Lone count chores state := by
  induction chores using List.reverseRecOn with
  | nil =>
      exact ⟨[], _, rfl, _, {}, rfl, World.serves_roomy count, rfl, rfl, rfl⟩
  | append_singleton chores chore ih =>
      obtain ⟨hearlier, hchore⟩ := (WorkerState.fitsAll_concat _ _ _).mp hfits
      obtain ⟨orders, _, hrun, world, worker, rfl, hserves, hheld, hidle, rfl⟩ :=
        ih hearlier fun operation hmem => hbound operation (List.mem_append_left _ hmem)
      have hworker : (⟨world, #[worker]⟩ : Workers).workers[0]? = some worker := rfl
      have hfaithful := faithful_of_run? hrun hworker
      rw [← hfaithful.idle hidle] at hchore
      obtain ⟨more, state, hmore, hlone⟩ := run?_chore hserves hheld hidle hchore
        fun operation hrun => hbound operation (by simp [hrun])
      exact ⟨orders ++ more, state, by rw [run?_append, hrun]; exact hmore, hlone⟩

end Workers

end CoreEngines
