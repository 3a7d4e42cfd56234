import CoreEngines.Proofs.Storage.Retirement

/-!
What calls on an engine make of local storage, in every run.
-/

namespace CoreEngines

open LocalStorage (Command LastStored)

/-- The owner of a slot is there. -/
def StorageSlot.PresentIn (world : World) : StorageSlot → Prop
  | .bootstrap engine => ∃ object, world.engineAt? engine = some object
  | .thread owner => ∃ object, world.threadAt? owner = some object

section
variable {world : World} {operation : Operation} {command : Command} {slot : StorageSlot}
  {below : Flow} {target : Ref .engine} {place : Ref .context}

namespace World

theorem reads_of_present (hpresent : slot.PresentIn world) :
    ∃ later, world.After (slot.reads (world.storageIn slot)) later ∧ slot.PresentIn later ∧
      later.storageIn = world.storageIn := by
  suffices hafter : ∃ later, world.After (slot.reads (world.storageIn slot)) later ∧
      slot.PresentIn later by
    obtain ⟨later, hafter, hlater⟩ := hafter
    refine ⟨later, hafter, hlater, ?_⟩
    rw [storageIn_after hafter]
    cases slot <;> rfl
  cases slot with
  | bootstrap engine =>
      obtain ⟨object, hobject⟩ := hpresent
      refine ⟨{ world with engines := world.engines.setIfInBounds engine.index object }, ?_,
        object, getElem?_setIfInBounds_self hobject object⟩
      simp [After, StorageSlot.reads, perform?, storageIn, hobject, Engine.access?]
  | thread owner =>
      obtain ⟨object, hobject⟩ := hpresent
      refine ⟨{ world with threads := world.threads.setIfInBounds owner.index object }, ?_,
        object, getElem?_setIfInBounds_self hobject object⟩
      have hat : world.threads[owner.index]? = some object := hobject
      simp [After, StorageSlot.reads, perform?, storageIn, threadAt?, accessAt?_eq, hat,
        Thread.access]

theorem writes_of_present (storage : LocalStorage) (hpresent : slot.PresentIn world) :
    ∃ later, world.After (slot.writes storage) later ∧
      later.storageIn = Function.update world.storageIn slot storage := by
  suffices hafter : ∃ later, world.After (slot.writes storage) later by
    obtain ⟨later, hafter⟩ := hafter
    refine ⟨later, hafter, ?_⟩
    rw [storageIn_after hafter, Happening.write?_eq_some.mpr rfl]
  cases slot with
  | bootstrap engine =>
      obtain ⟨object, hobject⟩ := hpresent
      simp [After, StorageSlot.writes, perform?, hobject, Engine.access?]
  | thread owner =>
      obtain ⟨object, hobject⟩ := hpresent
      have hat : world.threads[owner.index]? = some object := hobject
      simp [After, StorageSlot.writes, perform?, accessAt?_eq, hat]

end World

/-- A visit to a slot that nobody else visits comes to its end. -/
theorem StorageSlot.visit_flow {next : Except Failure (Option UInt64) → Program operation.Reply}
    (hpresent : slot.PresentIn world) (hfree : slot.lock ∉ world.held) :
    ∃ later, Flow.run? world (⟨operation, (slot.use (·.run command)).andThen next⟩ :: below)
        [.step, .step, .step, .step] =
          some (later, ⟨operation, next (.ok ((world.storageIn slot).get? command.key))⟩ :: below,
            slot.visit (world.storageIn slot) command) ∧
      later.storageIn =
        Function.update world.storageIn slot ((world.storageIn slot).run command).2 := by
  have hacquire : world.perform? (.acquire slot.lock) =
      some ((), { world with held := slot.lock :: world.held }) := by
    simp [World.perform?, hfree]
  obtain ⟨first, hread, hfirst, hsame⟩ :=
    @World.reads_of_present { world with held := slot.lock :: world.held } slot hpresent
  obtain ⟨second, hwrite, hchanged⟩ :=
    World.writes_of_present ((world.storageIn slot).run command).2 hfirst
  refine ⟨{ second with held := second.held.erase slot.lock }, ?_, ?_⟩
  · rw [← LocalStorage.run_fst]
    cases slot with
    | bootstrap engine =>
        exact Flow.run?_act hacquire (Flow.run?_act hread (Flow.run?_act hwrite
          (Flow.run?_act rfl rfl)))
    | thread owner =>
        exact Flow.run?_act hacquire (Flow.run?_act hread (Flow.run?_act hwrite
          (Flow.run?_act rfl rfl)))
  · exact hchanged.trans (congrArg (fun storages => Function.update storages slot _) hsame)

namespace Engine

/-- The program of a call on an engine: find the slot, visit it, and return. -/
theorem program_of_command (hcommand : operation.command? = some command)
    (htarget : operation.engine? = some target) :
    ∃ next : Except Failure (Option UInt64) → Program operation.Reply,
      operation.program =
        (storageSlot target >>= fun slot => (slot.use (·.run command)).andThen next) ∧
      ∀ held, ∃ reply, next (.ok held) = .done (.ok reply) ∧ operation.Replies held reply := by
  cases operation with
  | localGet engine key =>
      cases hcommand
      cases htarget
      refine ⟨.done, ?_, fun held => ⟨held, rfl, rfl⟩⟩
      simp only [Program.andThen_done]
      rfl
  | localSet engine key value =>
      cases hcommand
      cases htarget
      exact ⟨_, rfl, fun held => ⟨(), rfl, trivial⟩⟩
  | storage thread command => cases htarget
  | _ => cases hcommand

/-- A call that has found its slot visits it and returns. -/
theorem visit_flow {next : Except Failure (Option UInt64) → Program operation.Reply}
    (hnext : ∀ held, ∃ reply, next (.ok held) = .done (.ok reply) ∧ operation.Replies held reply)
    (hpresent : slot.PresentIn world) (hfree : slot.lock ∉ world.held) :
    ∃ later reply made, Flow.run? world
        (⟨operation, (slot.use (·.run command)).andThen next⟩ :: below)
        [.step, .step, .step, .step, .finish] = some (later, below, made) ∧
      .finished operation (.ok reply) ∈ made ∧
        operation.Replies ((world.storageIn slot).get? command.key) reply ∧
          later.storageIn =
            Function.update world.storageIn slot ((world.storageIn slot).run command).2 := by
  obtain ⟨later, hvisit, hlater⟩ :=
    @StorageSlot.visit_flow world operation command slot below next hpresent hfree
  obtain ⟨reply, hreply, hreplies⟩ := hnext ((world.storageIn slot).get? command.key)
  refine ⟨later, reply, slot.visit (world.storageIn slot) command ++
    [.finished operation (.ok reply)], ?_, by simp, hreplies, hlater⟩
  rw [show [Move.step, .step, .step, .step, .finish] = [.step, .step, .step, .step] ++ [.finish]
    from rfl, Flow.run?_append, hvisit, hreply]
  rfl

variable {engine : Engine} {shape : ContextShape} {thread : Ref .thread}

/-- While there is no context, a call uses the bootstrap storage. -/
theorem boots_flow (hengine : world.engineAt? target = some engine)
    (hcontext : world.contextOf? target = none) (hfree : .bootstrap target ∉ world.held)
    (hasking : below.all (·.isAsking)) (hcommand : operation.command? = some command)
    (htarget : operation.engine? = some target) :
    ∃ later reply made, Flow.run? world below
        [.start operation, .step, .step, .step, .step, .step, .finish] =
          some (later, below, made) ∧
      .finished operation (.ok reply) ∈ made ∧
        operation.Replies ((world.storageIn (.bootstrap target)).get? command.key) reply ∧
          later.storageIn = Function.update world.storageIn (.bootstrap target)
            ((world.storageIn (.bootstrap target)).run command).2 := by
  obtain ⟨next, hprogram, hnext⟩ := program_of_command hcommand htarget
  have hlook : world.perform? (.engine target .context) = some (none, world) := by
    rw [World.perform?_look hengine, hcontext]
  obtain ⟨later, reply, made, hvisit, hfinished, hreplies, hlater⟩ :=
    @visit_flow world operation command (.bootstrap target) below next hnext ⟨engine, hengine⟩ hfree
  exact ⟨later, reply, _, Flow.run?_start hasking hprogram (Flow.run?_act hlook hvisit),
    List.mem_cons_of_mem _ (List.mem_cons_of_mem _ hfinished), hreplies, hlater⟩

/-- Once there is a context, a call uses the storage of the thread that the manager names. -/
theorem serves_flow (hengine : world.engineAt? target = some engine)
    (hcontext : world.contextOf? target = some place)
    (hshape : world.contextShape? place = some shape)
    (hthread : (StorageSlot.thread thread).PresentIn world) (hfree : .storage thread ∉ world.held)
    (hasking : below.all (·.isAsking)) (hcommand : operation.command? = some command)
    (htarget : operation.engine? = some target) :
    ∃ later reply made, Flow.run? world below
        [.start operation, .step, .step,
          .answer (.currentThread shape.manager) (.ok (some (.thread thread))),
          .step, .step, .step, .step, .finish] = some (later, below, made) ∧
      .finished operation (.ok reply) ∈ made ∧
        operation.Replies ((world.storageIn (.thread thread)).get? command.key) reply ∧
          later.storageIn = Function.update world.storageIn (.thread thread)
            ((world.storageIn (.thread thread)).run command).2 := by
  obtain ⟨next, hprogram, hnext⟩ := program_of_command hcommand htarget
  have hlook : world.perform? (.engine target .context) = some (some place, world) := by
    rw [World.perform?_look hengine, hcontext]
  have hread := World.perform?_contextShape hshape
  obtain ⟨later, reply, made, hvisit, hfinished, hreplies, hlater⟩ :=
    @visit_flow world operation command (.thread thread) below next hnext hthread hfree
  refine ⟨later, reply, _, Flow.run?_start hasking hprogram
    (Flow.run?_act hlook (Flow.run?_act hread (Flow.run?_answer hvisit))), ?_, hreplies, hlater⟩
  simp [hfinished]

/-- Where the manager names no thread, a call fails and changes nothing. -/
theorem declines_flow {answer : Except Failure (Option Handle)} {failure : Failure}
    (hengine : world.engineAt? target = some engine)
    (hcontext : world.contextOf? target = some place)
    (hshape : world.contextShape? place = some shape)
    (hfailure : unserved engine.shape.core answer = some failure)
    (hasking : below.all (·.isAsking)) (hcommand : operation.command? = some command)
    (htarget : operation.engine? = some target) :
    ∃ more made, (∀ move ∈ more, move = .step ∨ move = .finish) ∧
      Flow.run? world below ([.start operation, .step, .step,
        .answer (.currentThread shape.manager) answer] ++ more) = some (world, below, made) ∧
        .finished operation (.error failure) ∈ made := by
  obtain ⟨next, hprogram, hnext⟩ := program_of_command hcommand htarget
  have hlook : world.perform? (.engine target .context) = some (some place, world) := by
    rw [World.perform?_look hengine, hcontext]
  have hread := World.perform?_contextShape hshape
  rcases answer with cause | _ | handle
  · cases hfailure
    exact ⟨[.finish], _, by simp, Flow.run?_start hasking hprogram
      (Flow.run?_act hlook (Flow.run?_act hread (Flow.run?_answer rfl))), by simp⟩
  · cases hfailure
    exact ⟨[.step, .finish], _, by simp, Flow.run?_start hasking hprogram
      (Flow.run?_act hlook (Flow.run?_act hread (Flow.run?_answer
        (Flow.run?_act (World.perform?_engineShape hengine) rfl)))), by simp⟩
  · cases handle with
    | empty =>
        cases hfailure
        exact ⟨[.finish], _, by simp, Flow.run?_start hasking hprogram
          (Flow.run?_act hlook (Flow.run?_act hread (Flow.run?_answer rfl))), by simp⟩
    | thread thread => cases hfailure

end Engine

end

namespace Engine

/-- What a run has made of the local storage that calls on an engine use. -/
structure RecallsLocals (target : Ref .engine) (engine : Engine) (machine : Machine)
    (history : History) : Prop where
  /-- A call that has returned has made one access, to the slot that it found, and tells what the
  accesses to this slot before it, whoever made them, have stored last under its key. -/
  replied : ∀ {number operation command story} {reply : operation.Reply},
    (Journal.ofHistory history).own number = .started operation :: story →
      operation.command? = some command → .finished operation (.ok reply) ∈ story →
        ∃ way slot earlier later held, operation.Finds way (.ok slot) ∧ way <+: story ∧
          (Journal.ofHistory history).accesses slot = earlier ++ (number, command) :: later ∧
            operation.Replies held reply ∧
              ∀ value, held = some value ↔ LastStored command.key value (earlier.map Prod.snd)
  /-- Every access is made by a call that is there to make it, and has found the slot. -/
  made : ∀ {slot number command}, (number, command) ∈ (Journal.ofHistory history).accesses slot →
    ∃ operation way story, (Journal.ofHistory history).own number = .started operation :: story ∧
      operation.command? = some command ∧ operation.Finds way (.ok slot) ∧ way <+: story
  /-- No call makes two accesses to a slot, -/
  once : ∀ slot, (((Journal.ofHistory history).accesses slot).map Prod.fst).Nodup
  /-- nor accesses to two slots. -/
  single : ∀ {slot slot' number command command'},
    (number, command) ∈ (Journal.ofHistory history).accesses slot →
      (number, command') ∈ (Journal.ofHistory history).accesses slot' → slot = slot'
  /-- What is under a key of a slot was stored there last. -/
  kept : ∀ slot key value, (machine.world.storageIn slot).get? key = some value ↔
    LastStored key value (((Journal.ofHistory history).accesses slot).map Prod.snd)
  /-- No step changes what a slot holds under a key but one of a call that is there to store or to
  erase under this key, and has found this slot. -/
  confined : ∀ {index move machine' happening slot key},
    machine.move? index move = some (machine', happening) →
      (machine'.world.storageIn slot).get? key ≠ (machine.world.storageIn slot).get? key →
        ∃ operation command rest below number way story,
          machine.flow index = ⟨operation, rest⟩ :: below ∧ operation.command? = some command ∧
            command.key = key ∧ (∀ other, command ≠ .get other) ∧
              (Journal.ofHistory history).own number = .started operation :: story ∧
                operation.Finds way (.ok slot) ∧ way <+: story
  /-- Whoever looks for the context sees it if it is published, and only then. -/
  seen : ∀ {before index seen after},
    history = before ++ (index, .acted (.engine target .context) seen) :: after →
      ∀ place, seen = some place ↔ publication target place ∈ before.map Prod.snd
  /-- Whoever asks for the running thread asks the manager that the context was made with. -/
  asked : ∀ {place shape}, .acted (.context place .shape) shape ∈ history.map Prod.snd →
    machine.world.contextShape? place = some shape
  /-- Whoever uses the bootstrap storage had looked for the context before it was published, -/
  early : ∀ {before after place number command}, history = before ++ after →
    publication target place ∈ before.map Prod.snd →
      (number, command) ∈ (Journal.ofHistory history).accesses (.bootstrap target) →
        .acted (.engine target .context) none ∈ (Journal.ofHistory before).own number
  /-- so no call uses it that starts later. -/
  late : ∀ {before after place number command}, history = before ++ after →
    publication target place ∈ before.map Prod.snd → (Journal.ofHistory before).started ≤ number →
      (number, command) ∉ (Journal.ofHistory history).accesses (.bootstrap target)
  /-- Where all calls on the engine come from one flow, the bootstrap storage is neither read nor
  written after the publication. -/
  retired : ∀ {before after index place}, CalledFromOneFlow target history →
    history = before ++ (index, publication target place) :: after →
      ∀ entry ∈ after, ∀ storage, entry.2 ≠ (StorageSlot.bootstrap target).reads storage ∧
        entry.2 ≠ (StorageSlot.bootstrap target).writes storage
  /-- A call to which the manager names no thread uses no storage and fails. -/
  refused : ∀ {number operation command story manager answer failure},
    (Journal.ofHistory history).own number = .started operation :: story →
      operation.command? = some command → operation.engine? = some target →
        .answered (.currentThread manager) answer ∈ story →
          unserved engine.shape.core answer = some failure →
            (∀ happening ∈ story, happening.Storeless) ∧
              ∀ result, .finished operation result ∈ story → result = .error failure
  /-- While there is no context, a call that starts in a flow in which only callbacks go on returns
  after it has used the bootstrap storage, unless somebody else is using it. -/
  boots : ∀ {index flow operation command}, machine.world.contextOf? target = none →
    .bootstrap target ∉ machine.world.held → machine.flows[index]? = some flow →
      flow.all (·.isAsking) → operation.command? = some command →
        operation.engine? = some target → ∃ world happened, ∃ reply : operation.Reply,
          machine.run? ([.start operation, .step, .step, .step, .step, .step, .finish].map
            fun move => (index, move)) = some (⟨world, machine.flows⟩, happened) ∧
          (index, .finished operation (.ok reply)) ∈ happened ∧
            operation.Replies ((machine.world.storageIn (.bootstrap target)).get? command.key)
              reply ∧
            world.storageIn = Function.update machine.world.storageIn (.bootstrap target)
              ((machine.world.storageIn (.bootstrap target)).run command).2
  /-- Once there is a context, it returns after it has used the storage of the thread that the
  manager names, -/
  serves : ∀ {index flow operation command place shape thread},
    machine.world.contextOf? target = some place →
      machine.world.contextShape? place = some shape →
        (StorageSlot.thread thread).PresentIn machine.world →
          .storage thread ∉ machine.world.held → machine.flows[index]? = some flow →
            flow.all (·.isAsking) → operation.command? = some command →
              operation.engine? = some target → ∃ world happened, ∃ reply : operation.Reply,
                machine.run? ([.start operation, .step, .step,
                  .answer (.currentThread shape.manager) (.ok (some (.thread thread))),
                  .step, .step, .step, .step, .finish].map fun move => (index, move)) =
                    some (⟨world, machine.flows⟩, happened) ∧
                (index, .finished operation (.ok reply)) ∈ happened ∧
                  operation.Replies ((machine.world.storageIn (.thread thread)).get? command.key)
                    reply ∧
                  world.storageIn = Function.update machine.world.storageIn (.thread thread)
                    ((machine.world.storageIn (.thread thread)).run command).2
  /-- and where the manager names none, it fails and leaves all as it was. -/
  declines : ∀ {index flow operation command place shape answer failure},
    machine.world.contextOf? target = some place →
      machine.world.contextShape? place = some shape →
        unserved engine.shape.core answer = some failure → machine.flows[index]? = some flow →
          flow.all (·.isAsking) → operation.command? = some command →
            operation.engine? = some target → ∃ more happened,
              (∀ move ∈ more, move = .step ∨ move = .finish) ∧
              machine.run? (([.start operation, .step, .step,
                .answer (.currentThread shape.manager) answer] ++ more).map
                  fun move => (index, move)) = some (machine, happened) ∧
                (index, .finished operation (.error failure)) ∈ happened

/-- In every run of any number of flows, calls on an engine find what was stored last in the storage
that is in use. -/
theorem recallsLocals_of_run? {count : Nat} {moves : List (Nat × Move)} {machine : Machine}
    {history : History} {target : Ref .engine} {engine : Engine}
    (hrun : (Machine.idle {} count).run? moves = some (machine, history))
    (hengine : machine.world.engineAt? target = some engine) :
    RecallsLocals target engine machine history := by
  have hruns := Machine.runs_of_run? hrun
  refine ⟨fun hown hcommand hfinished => hruns.replied hcommand hown hfinished,
    hruns.finder_of_access, hruns.accesses_nodup, hruns.slot_unique, ?_, ?_, ?_,
    hruns.contextShape_of_read, ?_, ?_, ?_, ?_, ?_, ?_, ?_⟩
  · intro slot key value
    rw [hruns.recalls, LocalStorage.recalled_eq_some]
  · intro index move machine' happening slot key hmove hchanged
    obtain ⟨flow, hmoves, _⟩ := Machine.move?_moves hmove
    exact confined_of_runs hruns hmoves hchanged
  · rintro before index seen after rfl place
    exact seen_iff hruns
  · rintro before after place number command rfl hfill haccess
    obtain ⟨operation, way, story, hown, _, hfinds, hway⟩ := hruns.finder_of_access haccess
    obtain ⟨_, rfl⟩ := hfinds.bootstrap
    apply looked_before hruns hfill
    exact hown ▸ List.mem_cons_of_mem _ (hway.mem (List.mem_singleton_self _))
  · rintro before after place number command rfl hfill hnumber haccess
    obtain ⟨operation, way, story, hown, _, hfinds, hway⟩ := hruns.finder_of_access haccess
    obtain ⟨_, rfl⟩ := hfinds.bootstrap
    have hlook := looked_before hruns hfill
      (hown ▸ List.mem_cons_of_mem _ (hway.mem (List.mem_singleton_self _)))
    obtain ⟨_, _, hbefore⟩ := hruns.beginning
    rw [Journal.own_eq_nil hbefore.coursing.sound hnumber] at hlook
    cases hlook
  · rintro before after index place honeFlow rfl ⟨other, happening⟩ hentry storage
    exact retired_of_run? hrun honeFlow hentry
  · intro number operation command story manager answer failure hown hcommand htarget hanswer
      hfailure
    exact refused_of_runs hruns hengine hcommand htarget hown hanswer hfailure
  · intro index flow operation command hcontext hfree hflow hasking hcommand htarget
    obtain ⟨later, reply, made, hsolo, hfinished, hreplies, hlater⟩ :=
      boots_flow hengine hcontext hfree hasking hcommand htarget
    exact ⟨later, _, reply, Machine.run?_flow_back hflow hsolo,
      List.mem_map_of_mem hfinished, hreplies, hlater⟩
  · intro index flow operation command place shape thread hcontext hshape hpresent hfree hflow
      hasking hcommand htarget
    obtain ⟨later, reply, made, hsolo, hfinished, hreplies, hlater⟩ :=
      serves_flow hengine hcontext hshape hpresent hfree hasking hcommand htarget
    exact ⟨later, _, reply, Machine.run?_flow_back hflow hsolo,
      List.mem_map_of_mem hfinished, hreplies, hlater⟩
  · intro index flow operation command place shape answer failure hcontext hshape hfailure hflow
      hasking hcommand htarget
    obtain ⟨more, made, hmore, hsolo, hfinished⟩ :=
      declines_flow hengine hcontext hshape hfailure hasking hcommand htarget
    exact ⟨more, _, hmore, Machine.run?_flow_back hflow hsolo, List.mem_map_of_mem hfinished⟩

open Schedule

/-- A value is stored before the only engine of a table is entered, and found while it waits for its
manager.  When there is a context, a thread is created, and the same key is stored and found there;
then the manager names no thread. -/
def bootstrapThenThread : List (Nat × Move) :=
  inFlow 0 (along (.buildTable { bootstrapCore := ⟨0⟩ } [.execution]) 4 ++
    along (.localSet ⟨0⟩ 1 7) 5 ++ entering ⟨0⟩ ⟨0⟩ ++ along (.localGet ⟨0⟩ 1) 5 ++
    [Move.answer (.createManager ⟨0⟩ true) (.ok ⟨0⟩)] ++ steps 6 ++ creating ⟨0⟩ ++
    [Move.start (.localSet ⟨0⟩ 1 9)] ++ steps 2 ++
    [Move.answer (.currentThread ⟨0⟩) (.ok (some (.thread ⟨0⟩)))] ++ steps 4 ++ [Move.finish] ++
    along (.storage ⟨0⟩ (.get 1)) 4 ++ [Move.start (.localGet ⟨0⟩ 1)] ++ steps 2 ++
    [Move.answer (.currentThread ⟨0⟩) (.ok none), .step, .finish,
      .answer (.hasThreads ⟨0⟩) (.ok false), .finish])

theorem recallsLocals_bootstrapThenThread : ∃ machine history engine,
    (Machine.idle {} 1).run? bootstrapThenThread = some (machine, history) ∧
      machine.world.engineAt? ⟨0⟩ = some engine ∧ engine.context = .ready ⟨0⟩ ∧
        (machine.world.storageIn (.bootstrap ⟨0⟩)).get? 1 = some 7 ∧
          (machine.world.storageIn (.thread ⟨0⟩)).get? 1 = some 9 ∧
            RecallsLocals ⟨0⟩ engine machine history := by
  have hsome : ((Machine.idle {} 1).run? bootstrapThenThread).isSome := by rfl
  obtain ⟨⟨machine, history⟩, hrun⟩ := Option.isSome_iff_exists.mp hsome
  have hcontext : (((Machine.idle {} 1).run? bootstrapThenThread).bind fun outcome =>
      (outcome.1.world.engineAt? ⟨0⟩).map (·.context)) = some (.ready ⟨0⟩) := by rfl
  have hbootstrap : (((Machine.idle {} 1).run? bootstrapThenThread).map fun outcome =>
      (outcome.1.world.storageIn (.bootstrap ⟨0⟩)).get? 1) = some (some 7) := by rfl
  have hthread : (((Machine.idle {} 1).run? bootstrapThenThread).map fun outcome =>
      (outcome.1.world.storageIn (.thread ⟨0⟩)).get? 1) = some (some 9) := by rfl
  rw [hrun] at hcontext hbootstrap hthread
  obtain ⟨engine, hengine, hready⟩ := Option.map_eq_some_iff.mp hcontext
  exact ⟨machine, history, engine, hrun, hengine, hready, Option.some.inj hbootstrap,
    Option.some.inj hthread, recallsLocals_of_run? hrun hengine⟩

end Engine

end CoreEngines
