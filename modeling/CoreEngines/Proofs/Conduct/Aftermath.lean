import CoreEngines.Proofs.Conduct.FirstEntries
import CoreEngines.Proofs.Interrupts.Counting

/-!
Aftermath.  What an entry leaves behind that has found no threads: the engine is entered and has its
context for good.  Interrupts are counted, no entry gets through any more, and the context can be
run directly, which admits the threads that there are by then.
-/

namespace CoreEngines

open Program

theorem World.perform?_reenter {world : World} {target : Ref .engine} {engine : Engine}
    (hengine : world.engineAt? target = some engine) (hentered : engine.entered = true) :
    world.perform? (.engine target .enter) = some (true, world) := by
  have hsame : { engine with entered := true } = engine := by rw [← hentered]
  simp [perform?, hengine, Engine.access?, hentered, hsame, setIfInBounds_self hengine]

namespace Engine

section
variable {count : Nat} {moves : List (Nat × Move)} {machine : Machine} {history : History}
  {target : Ref .engine} {engine : Engine} {number : Nat} {story : List Happening}

/-- An entry whose manager has no threads has failed, or is about to fail. -/
theorem starved_of_ready (hrun : (Machine.idle {} count).run? moves = some (machine, history))
    (hengine : machine.world.engineAt? target = some engine)
    (hown : (Journal.ofHistory history).own number = .started (.enter target) :: story)
    (hnone : false ∈ readyIn story) :
    (∃ place manager, machine.world.contextOf? target = some place ∧
      machine.world.contextShape? place = some (contextShape engine.shape manager)) ∧
      (.finished (.enter target) (.error (starved engine)) ∈ story ∨
        ∃ index below, machine.flow index =
          ⟨.enter target, .done (.error (starved engine))⟩ :: below) := by
  have hall := Machine.runs_of_run? hrun
  obtain ⟨steps, rest, last, rfl, hreaches, hlast, ⟨made, place, manager, late, rfl, hmade,
    hcontext, hshape, hlate⟩ | hstops⟩ := entry_cases hall hengine hown
  · refine ⟨⟨place, manager, hcontext, hshape⟩, ?_⟩
    have hquiet := List.forall_mem_append.mpr ⟨hmade, preliminary_of_last hlast⟩
    rw [List.append_assoc] at hnone hown
    rw [Context.readyIn_run hquiet] at hnone
    obtain ⟨_, _, _, _, _, rfl⟩ :=
      Context.turned_of_reaches (hall.shape_of_read hown hshape) hlate hnone
    obtain rfl | ⟨result, rfl, hdone⟩ := hlast
    · rw [List.append_nil] at hown
      exact Or.inr (Machine.ends_of_run? hrun hown hreaches)
    · cases hdone
      exact Or.inl (by simp [starved])
  · have hquiet := Context.readyIn_of_preliminary
      (List.forall_mem_append.mpr ⟨hstops.preliminary, preliminary_of_last hlast⟩)
    rw [hquiet] at hnone
    cases hnone

end

/-- An engine that has been entered and has its context. -/
structure EnteredWithContext (target : Ref .engine) (shape : EngineShape) (place : Ref .context)
    (machine : Machine) : Prop where
  entered : machine.world.entered target = true
  published : machine.world.contextOf? target = some place
  /-- An interrupt that is forwarded in any flow is counted, -/
  counts : ∀ {index flow}, machine.flows[index]? = some flow → flow.all (·.isAsking) →
    ∃ machine' happened, machine.run? [(index, .start (.timerTick target)), (index, .step),
        (index, .step), (index, .finish)] = some (machine', happened) ∧
      machine'.flows = machine.flows ∧
        machine'.world.ticks place = machine.world.ticks place + 1
  /-- and another entry in any flow fails, and changes nothing. -/
  refuses : ∀ {index flow}, machine.flows[index]? = some flow → flow.all (·.isAsking) →
    machine.run? [(index, .start (.enter target)), (index, .step), (index, .step),
        (index, .finish)] =
      some (machine, [(index, .started (.enter target)),
        (index, .acted (.engine target .shape) shape),
        (index, .acted (.engine target .enter) true),
        (index, .finished (.enter target) (.error (.violation (.enteredTwice shape.core))))])

theorem enteredWithContext_of_runs {history : History} {machine : Machine} {target : Ref .engine}
    {shape : EngineShape} {place : Ref .context}
    (hrun : Runs {} history machine.world machine.flow)
    (hshape : machine.world.engineShape? target = some shape)
    (hcontext : machine.world.contextOf? target = some place) :
    EnteredWithContext target shape place machine := by
  obtain ⟨engine, hengine, rfl⟩ := Option.map_eq_some_iff.mp hshape
  have hvalue : engine.context.value? = some place := by
    simpa [World.contextOf?, hengine] using hcontext
  obtain ⟨hentered, _, context, _, hat, _⟩ := present_of_runs hrun hengine hvalue
  refine ⟨by simp [World.entered, hengine, hentered], hcontext, ?_, ?_⟩
  · intro index flow hflow hasking
    obtain ⟨later, hsolo, hticks⟩ := counts_flow hengine hcontext hat hasking
    exact ⟨_, _, Machine.run?_flow_back hflow hsolo, rfl, hticks⟩
  · intro index flow hflow hasking
    have hsolo : flow.run? machine.world [.start (.enter target), .step, .step, .finish] =
        some (machine.world, flow, [.started (.enter target),
          .acted (.engine target .shape) engine.shape, .acted (.engine target .enter) true,
          .finished (.enter target) (.error (.violation (.enteredTwice engine.shape.core)))]) :=
      Flow.run?_start hasking rfl (Flow.run?_act (World.perform?_engineShape hengine)
        (Flow.run?_act (World.perform?_reenter hengine hentered) rfl))
    exact Machine.run?_flow_back hflow hsolo

end Engine

namespace Context

/-- How the loop of a context begins, up to what came of its first quantum. -/
def startOf (place : Ref .context) (shape : ContextShape) (result : Except Failure Quantum) :
    List Happening :=
  [.reported (.loopStarted shape.core shape.admission), .called (.runLoop place),
    .acted (.context place .shape) shape, .answered (.runQuantum shape.manager) result]

/-- How a context is run, a thread having been created before. -/
structure Resumes (place : Ref .context) (shape : ContextShape) (thread : Ref .thread)
    (runner : Nat) (story : List Happening) (count : Nat) (machine : Machine) (history : History) :
    Prop where
  /-- All that was staged is admitted and named, this thread among it, -/
  admitted : ∃ look : Registry.Look shape.registry runner history, look.FirstLook count ∧
    thread ∈ look.found ∧ ∀ found ∈ look.found, ∃ sched,
      .answered (.schedule shape.manager "" found) (.ok sched) ∈ story ∧
        machine.world.nameOf? found = some (some sched)
  /-- the manager says that it has threads, -/
  ready : readyIn story = [true]
  /-- and there is nothing to do next but to run the loop, and a quantum in it. -/
  loops : ∃ intake late result, story = opening place shape intake true ++ late ∧
    late.take 4 <+: startOf place shape result
  unstarved : ∀ {result}, .finished (.run place) result ∈ story →
    (∀ happening ∈ story, happening.fails = false) →
      result ≠ .error (.violation (.nothingToRun shape.core))

section
variable {count : Nat} {moves : List (Nat × Move)} {machine : Machine} {history : History}
  {place : Ref .context} {shape : ContextShape} {story : List Happening}

/-- What comes next is the start of the loop, as far as it goes. -/
theorem loops_of_reaches {after last : List Happening} {rest : Program Unit}
    (hshape : ∀ seen, .acted (.context place .shape) seen ∈ after → seen = shape)
    (hreaches : (do
      report (.loopStarted shape.core shape.admission)
      invoke (.runLoop place)
      report (.loopFinished shape.core) : Program Unit).Reaches after rest)
    (hlast : last = [] ∨ ∃ result, last = [.finished (.run place) result] ∧ rest = .done result) :
    ∃ result, (after ++ last).take 4 <+: startOf place shape result := by
  -- As long as the loop has not begun, there is nothing to return.
  have hbusy : (∀ result, rest ≠ .done result) → last = [] := by
    intro hrest
    obtain hnone | ⟨result, -, hdone⟩ := hlast
    · exact hnone
    · exact absurd hdone (hrest result)
  rcases after with _ | ⟨first, after⟩
  · obtain rfl := reaches_nil.mp hreaches
    obtain rfl := hbusy (by rintro _ ⟨⟩)
    exact ⟨.ok .exit, List.nil_prefix⟩
  obtain ⟨rfl, hloop⟩ := reaches_report_bind hreaches
  rcases after with _ | ⟨first, after⟩
  · obtain rfl := reaches_nil.mp hloop
    obtain rfl := hbusy (by rintro _ ⟨⟩)
    exact ⟨.ok .exit, by simp [startOf]⟩
  obtain ⟨rfl, hcode⟩ := reaches_invoke_bind hloop
  change (loopStep place >>= _).Reaches _ _ at hcode
  rw [loopStep, bind_bind] at hcode
  rcases after with _ | ⟨first, after⟩
  · obtain rfl := reaches_nil.mp hcode
    obtain rfl := hbusy (by rintro _ ⟨⟩)
    exact ⟨.ok .exit, by simp [startOf]⟩
  obtain ⟨seen, rfl, hquantum⟩ := reaches_perform_bind hcode
  obtain rfl := hshape seen (by simp)
  rw [bind_bind] at hquantum
  rcases after with _ | ⟨first, after⟩
  · obtain rfl := reaches_nil.mp hquantum
    obtain rfl := hbusy (by rintro _ ⟨⟩)
    exact ⟨.ok .exit, by simp [startOf]⟩
  rcases reaches_request_bind hquantum with ⟨quantum, rfl, _⟩ | ⟨failure, rfl, _⟩
  · exact ⟨.ok quantum, List.prefix_rfl⟩
  · exact ⟨.error failure, List.prefix_rfl⟩

theorem resumes_of_run? {before after : History} {runner creator : Nat} {made : List Happening}
    {thread : Ref .thread} {ready : Bool}
    (hrun : (Machine.idle {} count).run? moves = some (machine, before ++ after))
    (hshape : machine.world.contextShape? place = some shape)
    (hcreates : (Journal.ofHistory before).own creator =
      .started (.create shape.registry) :: made)
    (hcreated : .finished (.create shape.registry) (.ok thread) ∈ made)
    (hrunner : (Journal.ofHistory before).started ≤ runner)
    (hown : (Journal.ofHistory (before ++ after)).own runner = .started (.run place) :: story)
    (hready : ready ∈ readyIn story) (hapart : machine.world.Apart)
    (htruthful : shape.manager.Truthful (before ++ after))
    (hkept : Registry.KeptFor shape.registry runner (before ++ after)) :
    Resumes place shape thread runner story count machine (before ++ after) := by
  have hall := Machine.runs_of_run? hrun
  obtain ⟨steps, rest, last, rfl, hreaches, hlast⟩ := hall.reaches_last hown
  have hquiet : ∀ happening ∈ [] ++ last, happening.Preliminary := preliminary_of_last hlast
  have hreads : ∀ seen, .acted (.context place .shape) seen ∈ steps → seen = shape :=
    hall.shape_of_read (show _ = .started (.run place) :: ([] ++ (steps ++ last)) from hown) hshape
  have hready : ready ∈ readyIn steps := by
    rwa [← List.nil_append (steps ++ last), readyIn_run hquiet] at hready
  obtain ⟨intake, late, admitted, look, rfl, hintake, hone, hfirstLook, huntaken, hfound, hlate⟩ :=
    told_of_run? hrun rfl hown hquiet hshape hreaches hready hapart htruthful hkept
  have hthread : thread ∈ look.found := by
    obtain ⟨made', hmade'⟩ := look.own_before hall hown
    obtain ⟨gap, hgap⟩ := hall.prefix_of_unstarted hrunner look.moment hmade'
    obtain ⟨more, hmore⟩ := Journal.own_continues before gap creator
    rw [hgap, hcreates] at hmore
    exact look.mem_found hall huntaken hmore.symm (List.mem_append_left _ hcreated)
  obtain rfl : ready = true := by
    by_contra hnot
    have hnone := hfound.mp (Bool.eq_false_iff.mpr hnot)
    rw [hnone] at hthread
    cases hthread
  refine ⟨⟨look, hfirstLook, hthread, ?_⟩, ?_, ?_, ?_⟩
  · intro found hmem
    obtain ⟨_, looking, handing, rest, _, hhandsOver, rfl, _⟩ := hintake.counted
    obtain ⟨sched, hanswer, hbind⟩ := hhandsOver.bound hmem
    refine ⟨sched, by simp [opening, hanswer], ?_⟩
    rw [World.nameOf?_eq_some]
    exact hall.sched_of_bind (hall.mem_history hown (by simp [opening, hbind]))
  · rw [← List.nil_append ((opening place shape intake true ++ late) ++ last), readyIn_run hquiet,
      hone]
  · obtain ⟨result, hstart⟩ := loops_of_reaches
      (fun seen hread => hreads seen (List.mem_append_right _ hread)) hlate hlast
    exact ⟨intake, late ++ last, result, List.append_assoc .., hstart⟩
  · intro result hfinished hcalm hstarved
    obtain rfl := hreaches.rest_of_finished hlast hfinished
    obtain ⟨_, _, hiff, hnone⟩ := finished_of_run? hrun rfl hown hquiet hshape hreaches
      (fun happening hmem => hcalm happening (List.mem_append_left _ hmem)) hapart htruthful hkept
    have hfalse := hnone (hiff.mp hstarved)
    rw [hone] at hfalse
    simp at hfalse

end

/-- While the lock of the roster is free and nothing else happens, a flow that may run a context
comes to the first quantum of its loop, if the manager then says that it has threads; and every
thread that was staged has got its name. -/
theorem loop_reached {machine : Machine} {history : History} {index : Nat} {flow : Flow}
    {place : Ref .context} {shape : ContextShape} {registry : Registry}
    (names : Ref .thread → SchedRef) (result : Except Failure Quantum)
    (hrun : Runs {} history machine.world machine.flow)
    (hunforced : Unforced history) (hflow : machine.flows[index]? = some flow)
    (hasking : flow.all (·.isAsking)) (hshape : machine.world.contextShape? place = some shape)
    (hregistry : machine.world.registryAt? shape.registry = some registry)
    (hfree : .roster shape.registry ∉ machine.world.held) :
    ∃ moves later made, machine.run? moves = some (later, (Happening.started (.run place) ::
        (opening place shape made true ++ startOf place shape result)).map
          fun happening => (index, happening)) ∧
      ∀ thread ∈ registry.pending, later.world.nameOf? thread = some (some (names thread)) := by
  obtain ⟨later, halone, _, hnamed⟩ :=
    hrun.admits_alone hunforced hshape hregistry hfree (Respond.naming_schedule names shape.manager)
  obtain ⟨next, hprogram, hnext⟩ :
      ∃ next : Except Failure Nat → Program (Operation.run place).Reply,
      (Operation.run place).program = (admitStaged place).andThen next ∧
        next (.ok registry.pending.size) = (do
          let shape : ContextShape ← perform (.context place .shape)
          let ready : Bool ← request (.hasThreads shape.manager)
          if ready then
            report (.loopStarted shape.core shape.admission)
            invoke (.runLoop place)
            report (.loopFinished shape.core)
          else raise (.nothingToRun shape.core)) := ⟨_, rfl, rfl⟩
  obtain ⟨moves, made, hmoves, _⟩ := Flow.run?_of_alone next flow halone
  have hstart := Flow.run?_start hasking hprogram hmoves
  have hlater : later.contextShape? place = some shape :=
    Machine.keeps_run? (fun world => world.contextShape? place = some shape)
      (fun hkeeps hafter => (World.outlasts_after hafter).contexts hkeeps)
      (Machine.run?_flow hflow hstart) hshape
  have hread := World.perform?_contextShape hlater
  obtain ⟨last, hloop⟩ : ∃ last,
      Flow.run? later (⟨.run place, next (.ok registry.pending.size)⟩ :: flow)
        [.step, .answer (.hasThreads shape.manager) (.ok true), .step, .step, .step,
          .answer (.runQuantum shape.manager) result] =
        some (later, last, [.acted (.context place .shape) shape,
          .answered (.hasThreads shape.manager) (.ok true)] ++ startOf place shape result) := by
    rw [hnext]
    exact ⟨_, Flow.run?_act hread <| Flow.run?_answer <| Flow.run?_emit <| Flow.run?_call <|
      Flow.run?_act hread <| Flow.run?_answer rfl⟩
  have hwhole : Flow.run? machine.world flow (.start (.run place) :: (moves ++
      [.step, .answer (.hasThreads shape.manager) (.ok true), .step, .step, .step,
        .answer (.runQuantum shape.manager) result])) =
        some (later, last, .started (.run place) ::
          (opening place shape made true ++ startOf place shape result)) := by
    refine Flow.run?_start hasking hprogram ?_
    simp only [Flow.run?_append, hmoves, Option.bind_some, hloop, Option.map_some, opening,
      List.append_assoc]
  exact ⟨_, _, made, Machine.run?_flow hflow hwhole, hnamed⟩

/-- A context fails for want of threads in a registry without threads, if its manager has none
either. -/
theorem starves_alone {world : World} {place : Ref .context} {shape : ContextShape}
    {registry : Registry} (respond : Respond) (hshape : world.contextShape? place = some shape)
    (hregistry : world.registryAt? shape.registry = some registry) (hcount : registry.count = 0)
    (hnone : respond (.hasThreads shape.manager) = .ok false) :
    (run place).alone? respond world =
      some (.error (.violation (.nothingToRun shape.core)), world) := by
  have hlook := World.perform?_contextShape hshape
  have hpeek := World.perform?_peek hregistry
  rw [hcount] at hpeek
  have hadmits : (admitStaged place).alone? respond world = some (.ok 0, world) := by
    simp only [admitStaged, Registry.takeStaged, alone?_bind, alone?_perform, alone?_pure, hlook,
      hpeek, Option.map_some, Option.bind_some, if_true]
    rfl
  simp only [run, alone?_bind, hadmits, alone?_perform, hlook, alone?_request, hnone,
    Option.map_some, Option.bind_some]
  rfl

end Context

/-- The answers of a host on this core that makes this manager, which has no threads. -/
def Respond.starving (core : CoreId) (manager : ManagerRef) : Respond
  | .currentCore => .ok core
  | .createManager _ _ => .ok manager
  | .hasThreads _ => .ok false
  | _ => .error .aborted

theorem World.perform?_engine {world : World} {target : Ref .engine} {engine engine' : Engine}
    {access : Engine.Access} {answer : access.Answer}
    (hengine : world.engineAt? target = some engine)
    (haccess : engine.access? access = some (answer, engine')) :
    ∃ later, world.perform? (.engine target access) = some (answer, later) ∧
      later.engineAt? target = some engine' ∧ later.registries = world.registries ∧
        later.contexts = world.contexts := by
  refine ⟨{ world with engines := world.engines.setIfInBounds target.index engine' }, ?_, ?_, rfl,
    rfl⟩
  · simp [perform?, hengine, haccess]
  · exact getElem?_setIfInBounds_self hengine engine'

namespace Engine

/-- While nothing else happens, an engine without a context gets one. -/
theorem makeContext_alone {world : World} {target : Ref .engine} {engine : Engine}
    {manager : ManagerRef} (respond : Respond) (hengine : world.engineAt? target = some engine)
    (hvacant : engine.context = .vacant)
    (hmanager : ∀ startup, respond (.createManager engine.shape.core startup) = .ok manager) :
    ∃ place later, (makeContext target engine.shape.core engine.shape).alone? respond world =
        some (.ok place, later) ∧
      later.contextShape? place = some (contextShape engine.shape manager) ∧
        later.registries = world.registries := by
  obtain ⟨claimed, hclaim, hclaimed, hregistries, _⟩ := World.perform?_engine hengine
    (show engine.access? .claimContext = some (.granted, { engine with context := .building }) by
      simp [access?, hvacant, OnceCell.claim?])
  let place : Ref .context := ⟨claimed.contexts.size⟩
  let made : World :=
    { claimed with contexts := claimed.contexts.push (.new (contextShape engine.shape manager)) }
  have hmake : claimed.perform? (.newContext (contextShape engine.shape manager)) =
      some (place, made) := rfl
  have hmade : made.engineAt? target = some { engine with context := .building } := hclaimed
  obtain ⟨later, hfill, _, hregistries', hcontexts⟩ := World.perform?_engine hmade
    (show access? { engine with context := .building } (.fillContext place) =
      some ((), { engine with context := .ready place }) by
      simp [access?, OnceCell.fill])
  refine ⟨place, later, ?_, ?_, hregistries'.trans hregistries⟩
  · simp only [makeContext, alone?_bind, alone?_perform, hclaim, Option.map_some, Option.bind_some,
      alone?_andThen, Context.make, alone?_request, hmanager, alone?_report]
    rw [show claimed.perform? (.newContext _) = _ from hmake]
    simp only [Option.map_some, Option.bind_some, alone?_bind, alone?_perform, hfill, alone?_pure]
  · simp [World.contextShape?, World.contextAt?, hcontexts, made, place, Context.new]

/-- While nothing else happens, the first entry of an engine without threads fails for want of
them. -/
theorem starves_alone {world : World} {target : Ref .engine} {engine : Engine}
    {registry : Registry} (manager : ManagerRef) (hengine : world.engineAt? target = some engine)
    (hmode : engine.shape.mode = .execution) (hentered : engine.entered = false)
    (hvacant : engine.context = .vacant)
    (hregistry : world.registryAt? engine.shape.registry = some registry)
    (hcount : registry.count = 0) :
    ∃ later, (Operation.enter target).program.alone? (.starving engine.shape.core manager) world =
      some (.error (starved engine), later) := by
  obtain ⟨first, hfirst, hpassed, hregistries, _⟩ := World.perform?_engine hengine
    (show engine.access? .enter = some (false, { engine with entered := true }) by
      simp [access?, hentered])
  have hlook := World.perform?_look hpassed
  have hnone : first.contextOf? target = none := by
    simp [World.contextOf?, hpassed, hvacant, OnceCell.value?]
  rw [hnone] at hlook
  obtain ⟨place, later, hmakes, hplace, hregistries'⟩ :=
    makeContext_alone (.starving engine.shape.core manager) hpassed hvacant fun _ => rfl
  have hlater : later.registryAt? engine.shape.registry = some registry := by
    rw [World.registryAt?, hregistries', hregistries]
    exact hregistry
  have hstarves := Context.starves_alone (.starving engine.shape.core manager) hplace hlater hcount
    rfl
  refine ⟨later, ?_⟩
  simp only [Operation.program, enter, alone?_bind, alone?_perform,
    World.perform?_engineShape hengine, hfirst, hlook, Option.map_some, Option.bind_some,
    Bool.false_eq_true, if_false, alone?_request, Respond.starving, if_true, alone?_report, operate,
    hmode]
  rw [show (makeContext target engine.shape.core engine.shape).alone? _ _ = _ from hmakes]
  exact hstarves

theorem starves_of_flow {machine : Machine} {index : Nat} {flow : Flow} {target : Ref .engine}
    {engine : Engine} (hengine : machine.world.engineAt? target = some engine)
    (hmode : engine.shape.mode = .execution) (hentered : engine.entered = false)
    (hvacant : engine.context = .vacant)
    (hcount : machine.world.threadCount? engine.shape.registry = some 0)
    (hflow : machine.flows[index]? = some flow) (hasking : flow.all (·.isAsking)) :
    ∃ moves later steps, machine.run? moves = some (⟨later, machine.flows⟩,
      (Happening.started (.enter target) ::
        (steps ++ [.finished (.enter target) (.error (starved engine))])).map
          fun happening => (index, happening)) := by
  obtain ⟨registry, hregistry, hzero⟩ := Option.map_eq_some_iff.mp hcount
  obtain ⟨later, halone⟩ := starves_alone ⟨0⟩ hengine hmode hentered hvacant hregistry hzero
  obtain ⟨moves, steps, hmoves, _⟩ := Flow.run?_operation flow hasking halone
  exact ⟨_, later, steps, Machine.run?_flow_back hflow hmoves⟩

/-- How the first entry of an execution engine is decided, and what is left behind where there was
nothing to run. -/
structure Settles (target : Ref .engine) (engine : Engine) (count : Nat) (machine : Machine)
    (history : History) : Prop where
  /-- An entry that has returned has failed for want of threads just if it has found none when it
  looked, which it knows from the manager. -/
  finished : ∀ {number story result},
    UndrainedEntry target engine.shape number story machine history →
      .finished (.enter target) result ∈ story →
      ∃ look : Registry.Look engine.shape.registry number history, look.FirstLook count ∧
        (result = .error (starved engine) ↔ look.found = []) ∧
          (look.found = [] → false ∈ readyIn story)
  /-- So it is already when the manager has told an entry whether there are threads, -/
  told : ∀ {number story ready}, UndrainedEntry target engine.shape number story machine history →
    ready ∈ readyIn story →
      ∃ look : Registry.Look engine.shape.registry number history, look.FirstLook count ∧
        readyIn story = [ready] ∧ (ready = false ↔ look.found = [])
  /-- and without threads it has failed, or is about to. -/
  fails : ∀ {number story},
    (Journal.ofHistory history).own number = .started (.enter target) :: story →
      false ∈ readyIn story → .finished (.enter target) (.error (starved engine)) ∈ story ∨
        ∃ index below, machine.flow index =
          ⟨.enter target, .done (.error (starved engine))⟩ :: below
  worded : ∀ violation, starved engine = .violation violation →
    violation.message = "no threads to run on " ++ engine.shape.core.display
  /-- While nothing else happens, an entry of an engine without threads comes to this end. -/
  starves : ∀ {index flow}, machine.flows[index]? = some flow →
    flow.all (·.isAsking) → engine.entered = false → engine.context = .vacant →
      machine.world.threadCount? engine.shape.registry = some 0 →
        ∃ moves later steps, machine.run? moves = some (⟨later, machine.flows⟩,
          (Happening.started (.enter target) ::
            (steps ++ [.finished (.enter target) (.error (starved engine))])).map
              fun happening => (index, happening))
  /-- It leaves behind an engine that is entered and has a context, for good. -/
  strands : ∀ {number story},
    (Journal.ofHistory history).own number = .started (.enter target) :: story →
      false ∈ readyIn story → ∃ place manager,
        machine.world.contextShape? place = some (contextShape engine.shape manager) ∧
          ∀ {moves later happened}, machine.run? moves = some (later, happened) →
            EnteredWithContext target engine.shape place later
  /-- Any other entry that returns has failed. -/
  refused : ∀ {number other story story' result},
    (Journal.ofHistory history).own number = .started (.enter target) :: story →
      .acted (.engine target .enter) false ∈ story → other ≠ number →
        (Journal.ofHistory history).own other = .started (.enter target) :: story' →
          .finished (.enter target) result ∈ story' →
            result = .error (.violation (.enteredTwice engine.shape.core))
  /-- Once a thread has been created, whoever runs the context directly admits it and runs the loop:
  in every run, if the manager is truthful and the registry was kept, -/
  resumes : ∀ {before after place manager runner creator made thread story ready},
    history = before ++ after → machine.world.contextOf? target = some place →
      machine.world.contextShape? place = some (contextShape engine.shape manager) →
        (Journal.ofHistory before).own creator =
          .started (.create engine.shape.registry) :: made →
          .finished (.create engine.shape.registry) (.ok thread) ∈ made →
            (Journal.ofHistory before).started ≤ runner →
              (Journal.ofHistory history).own runner = .started (.run place) :: story →
                ready ∈ readyIn story → machine.world.Apart → manager.Truthful history →
                  Registry.KeptFor engine.shape.registry runner history →
                    Context.Resumes place (contextShape engine.shape manager) thread runner story
                      count machine history
  /-- and wherever the lock of the roster is free and nothing else happens. -/
  comes : ∀ {index flow place manager registry} (names : Ref .thread → SchedRef)
    (result : Except Failure Quantum),
    machine.world.contextOf? target = some place →
      machine.world.contextShape? place = some (contextShape engine.shape manager) →
        machine.world.registryAt? engine.shape.registry = some registry →
          .roster engine.shape.registry ∉ machine.world.held → Unforced history →
            machine.flows[index]? = some flow → flow.all (·.isAsking) →
              ∃ moves later made, machine.run? moves = some (later,
                (Happening.started (.run place) ::
                  (Context.opening place (contextShape engine.shape manager) made true ++
                    Context.startOf place (contextShape engine.shape manager) result)).map
                      fun happening => (index, happening)) ∧
                ∀ thread ∈ registry.pending,
                  later.world.nameOf? thread = some (some (names thread))

theorem settles_of_run? {count : Nat} {moves : List (Nat × Move)} {machine : Machine}
    {history : History} {target : Ref .engine} {engine : Engine}
    (hrun : (Machine.idle {} count).run? moves = some (machine, history))
    (hengine : machine.world.engineAt? target = some engine)
    (hmode : engine.shape.mode = .execution) : Settles target engine count machine history := by
  have hruns := Machine.runs_of_run? hrun
  refine ⟨told_of_finished hrun hengine hmode, told_of_ready hrun hengine, ?_, ?_, ?_, ?_, ?_, ?_,
    ?_⟩
  · exact fun hown hnone => (starved_of_ready hrun hengine hown hnone).2
  · rintro violation hstarved
    cases hstarved
    rfl
  · exact fun hflow hasking hentered hvacant hcount =>
      starves_of_flow hengine hmode hentered hvacant hcount hflow hasking
  · intro number story hown hnone
    obtain ⟨⟨place, manager, hcontext, hshape⟩, _⟩ := starved_of_ready hrun hengine hown hnone
    refine ⟨place, manager, hshape, fun {moves later happened} hmoves => ?_⟩
    refine enteredWithContext_of_runs (Machine.runs_run? hruns hmoves) ?_
      (contextOf?_of_run? hcontext hmoves)
    exact Machine.keeps_run? (fun world => world.engineShape? target = some engine.shape)
      (fun hkeeps hafter => (World.outlasts_after hafter).engines hkeeps) hmoves
        (congrArg (Option.map _) hengine)
  · exact fun hown hpassed hother hown' hfinished =>
      refused_of_finished hruns hengine hown hpassed hother hown' hfinished
  · rintro before after place manager runner creator made thread story ready rfl _ hshape hcreates
      hcreated hrunner hown hready hapart htruthful hkept
    exact Context.resumes_of_run? hrun hshape hcreates hcreated hrunner hown hready hapart
      htruthful hkept
  · intro index flow place manager registry names result _ hshape hregistry hfree hunforced hflow
      hasking
    exact Context.loop_reached names result hruns hunforced hflow hasking hshape hregistry hfree

open Schedule

/-- The only engine of a table is entered while it has no threads.  One is created while the manager
is asked, which says that it has none.  After the failure an interrupt comes in and another flow
tries to enter the engine; then the context is run, admits the thread, and runs one quantum. -/
def starvedEntry : List (Nat × Move) :=
  inFlow 0 (along (.buildTable { bootstrapCore := ⟨0⟩ } [.execution]) 4 ++ entering ⟨0⟩ ⟨0⟩ ++
    [Move.answer (.createManager ⟨0⟩ true) (.ok ⟨0⟩)] ++ steps 6 ++ creating ⟨0⟩ ++
    [Move.answer (.hasThreads ⟨0⟩) (.ok false), .finish]) ++
  inFlow 1 (along (.timerTick ⟨0⟩) 2 ++ along (.enter ⟨0⟩) 2) ++
  inFlow 0 ([Move.start (.run ⟨0⟩)] ++ steps 5 ++
    [Move.answer (.schedule ⟨0⟩ "" ⟨0⟩) (.ok ⟨5⟩)] ++ steps 5 ++
    [Move.answer (.hasThreads ⟨0⟩) (.ok true)] ++ steps 3 ++
    [Move.answer (.runQuantum ⟨0⟩) (.ok .exit), .step, .finish])

theorem settles_starvedEntry : ∃ machine history engine story,
    (Machine.idle {} 2).run? starvedEntry = some (machine, history) ∧
      machine.world.engineAt? ⟨0⟩ = some engine ∧ engine.shape.mode = .execution ∧
        UndrainedEntry ⟨0⟩ engine.shape 1 story machine history ∧
          .finished (.enter ⟨0⟩) (.error (starved engine)) ∈ story ∧
            Settles ⟨0⟩ engine 2 machine history := by
  have hsome : ((Machine.idle {} 2).run? starvedEntry).isSome := by rfl
  obtain ⟨⟨machine, history⟩, hrun⟩ := Option.isSome_iff_exists.mp hsome
  let engine : Engine :=
    ⟨⟨⟨0⟩, .execution, { bootstrapCore := ⟨0⟩ }, ⟨0⟩⟩, true, .ready ⟨0⟩, .empty⟩
  let shape : ContextShape := contextShape engine.shape ⟨0⟩
  have hengine : ((Machine.idle {} 2).run? starvedEntry).bind
      (fun outcome => outcome.1.world.engineAt? ⟨0⟩) = some engine := by rfl
  have hmanager : (((Machine.idle {} 2).run? starvedEntry).map fun outcome =>
      outcome.1.world.managerOf? ⟨0⟩) = some (some ⟨0⟩) := by rfl
  have hfair : (((Machine.idle {} 2).run? starvedEntry).map fun outcome =>
      decide (outcome.1.world.Apart ∧ ManagerRef.Truthful ⟨0⟩ outcome.2 ∧
        Registry.KeptFor ⟨0⟩ 1 outcome.2)) = some true := by decide +kernel
  have hown : (((Machine.idle {} 2).run? starvedEntry).map fun outcome =>
      (Journal.ofHistory outcome.2).own 1) =
        some (.started (.enter ⟨0⟩) :: (opened ⟨0⟩ engine.shape ++
          [.acted (.engine ⟨0⟩ .claimContext) .granted,
            .answered (.createManager ⟨0⟩ true) (.ok ⟨0⟩), .reported (.contextBuilt ⟨0⟩ true),
            .acted (.newContext shape) ⟨0⟩, .acted (.engine ⟨0⟩ (.fillContext ⟨0⟩)) (),
            .acted (.context ⟨0⟩ .shape) shape, .acted (.registry ⟨0⟩ .peek) (0 : Nat),
            .acted (.context ⟨0⟩ .shape) shape, .answered (.hasThreads ⟨0⟩) (.ok false),
            .finished (.enter ⟨0⟩) (.error (starved engine))])) := by rfl
  rw [hrun] at hengine hmanager hfair hown
  obtain ⟨hapart, htruthful, hkept⟩ := of_decide_eq_true (Option.some.inj hfair)
  refine ⟨machine, history, engine, _, hrun, hengine, rfl,
    ⟨⟨Option.some.inj hown, by simp [opened, arrival, passing],
      by simp [opened, arrival, passing, engine], ?_, hapart, ?_⟩, hkept⟩,
    by simp, settles_of_run? hrun hengine rfl⟩
  · simp [opened, arrival, passing, Happening.fails]
  · intro manager hmem
    obtain rfl : manager = ⟨0⟩ := by
      simpa using hmem.symm.trans (Option.some.inj hmanager)
    exact htruthful

end Engine

end CoreEngines
