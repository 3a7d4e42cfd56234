import CoreEngines.Proofs.Creation.Lossless
import CoreEngines.Proofs.Identity.Counters
import CoreEngines.Proofs.Identity.Tables

/-!
Identities.  The threads that are created through the engines of one table have identifiers of
their own, however the creations follow on each other; so handles, references and identifiers tell
the same threads apart, and an identifier leads back to the one engine that lists the thread.
-/

namespace CoreEngines

theorem enrolledIn_course (operation : Operation) (registry : Ref .registry)
    (story : List Happening) :
    enrolledIn registry (operation.course story) = enrolledIn registry story := by
  refine Operation.filterMap_course (fun happening thread henrolled => ?_)
    operation.record_mem_traits
  obtain ⟨length, rfl⟩ := Happening.enrolled?_eq_some.mp henrolled
  rfl

/-- A creator puts only one thread on record, -/
theorem Operation.Begins.thread_of_create {registry : Ref .registry} {made : List Happening}
    {thread other : Ref .thread} (hbegins : (create registry).Begins made)
    (hthread : thread ∈ enrolledIn registry made) (hother : other ∈ enrolledIn registry made) :
    thread = other := by
  obtain ⟨path, ⟨shape, serial, mailbox, born, length, rfl⟩, hmade⟩ := hbegins
  have hborn : ∀ listed ∈ enrolledIn registry made, listed = born := by
    intro listed hlisted
    obtain ⟨count, hmem⟩ := mem_enrolledIn.mp hlisted
    have hpath := hmade.mem hmem
    simp only [Registry.creation, List.mem_cons] at hpath
    simp_all
  rw [hborn thread hthread, hborn other hother]

/-- and before that it has looked at the registry, claimed a serial, and made the thread. -/
theorem Operation.Begins.birth_of_create {registry : Ref .registry} {made : List Happening}
    {thread : Ref .thread} (hbegins : (create registry).Begins made)
    (hthread : thread ∈ enrolledIn registry made) :
    ∃ (shape : Registry.Shape) (serial : UInt64) (mailbox : Ref .mailbox),
      .acted (.registry registry .shape) shape ∈ made ∧ claimed shape.counter serial ∈ made ∧
        .acted (.newThread ⟨shape.core, serial⟩ mailbox) thread ∈ made := by
  obtain ⟨path, ⟨shape, serial, mailbox, born, length, rfl⟩, hmade⟩ := hbegins
  obtain ⟨count, hmem⟩ := mem_enrolledIn.mp hthread
  obtain ⟨rfl, rfl⟩ : thread = born ∧ count = length := by
    have hpath := hmade.mem hmem
    simp only [Registry.creation, List.mem_cons] at hpath
    simp_all
  have hbefore := take_subset_of_mem hmade (show _[4]? = some _ from rfl)
    (by simp [Registry.creation]) hmem
  exact ⟨shape, serial, mailbox, hbefore (by simp [Registry.creation]),
    hbefore (by simp [Registry.creation]), hbefore (by simp [Registry.creation])⟩

namespace Table

/-- An operation has put a thread on record in the registry of an engine of the table. -/
def Creates (table : Table) (world : World) (history : History) (number : Nat)
    (thread : Ref .thread) : Prop :=
  ∃ engine ∈ table.engines, ∃ registry story, world.registryOf? engine = some registry ∧
    (Journal.ofHistory history).own number = .started (.create registry) :: story ∧
      thread ∈ enrolledIn registry story

/-- No more serials are asked of any registry of the table than there are. -/
def Spares (table : Table) (world : World) (history : History) : Prop :=
  ∀ engine ∈ table.engines, ∀ target registry, world.registryOf? engine = some target →
    world.registryAt? target = some registry →
      (history.map Prod.snd).countP (·.draws target registry.counter) < UInt64.size

/-- What is known of a creation: where the engine of its registry sits, and which serial it has
claimed. -/
structure Creation (table : Table) (world : World) (history : History) (number : Nat)
    (thread : Ref .thread) (engine : Ref .engine) (shape : EngineShape)
    (threads : Registry.Shape) (serial : UInt64) : Prop where
  seats : table.Seats world engine shape threads
  founded : .acted (.newCounter .initial) threads.counter ∈ history.map Prod.snd
  claim : (number, serial) ∈ (Journal.ofHistory history).deeds (·.claimed? threads.counter)
  named : world.threadId? thread = some ⟨threads.core, serial⟩
  listed : thread ∈ world.ledger.roster shape.registry

/-- No two threads of a table can be taken for each other. -/
structure Coherent (table : Table) (world : World) (history : History) : Prop where
  /-- Whoever returned a thread has created it. -/
  returned : ∀ {engine registry number story thread}, engine ∈ table.engines →
    world.registryOf? engine = some registry →
      (Journal.ofHistory history).own number = .started (.create registry) :: story →
        .finished (.create registry) (.ok thread) ∈ story →
          table.Creates world history number thread
  /-- The rosters list only threads that were created. -/
  listed : ∀ {engine target registry thread}, engine ∈ table.engines →
    world.registryOf? engine = some target → world.registryAt? target = some registry →
      thread ∈ registry.roster → ∃ number, table.Creates world history number thread
  /-- Each creation has an identifier of its own, -/
  distinct : ∀ {number other thread thread'}, table.Creates world history number thread →
    table.Creates world history other thread' →
      world.threadId? thread = world.threadId? thread' → number = other ∧ thread = thread'
  /-- so handles are equal exactly if they refer to one thread, and if the identifiers are the
  same. -/
  same : ∀ {number other thread thread'}, table.Creates world history number thread →
    table.Creates world history other thread' →
      ((Handle.thread thread == .thread thread') = (Handle.thread thread).ptrEq (.thread thread')) ∧
        ((Handle.thread thread).ptrEq (.thread thread') ↔
          world.threadId? thread = world.threadId? thread')
  /-- None of them equals the empty handle. -/
  nonempty : ∀ {number thread}, table.Creates world history number thread →
    (Handle.thread thread == .empty) = false ∧ (.empty == Handle.thread thread) = false
  /-- The core of a thread leads to an engine of the table, and this engine is the only one that
  lists the thread, which it does once. -/
  owned : ∀ {number thread}, table.Creates world history number thread →
    ∃ id engine object registry, world.threadId? thread = some id ∧
      table.owner? world thread = some engine ∧ table.engines[id.core.index]? = some engine ∧
        world.engineAt? engine = some object ∧ object.shape.core = id.core ∧
          world.registryAt? object.shape.registry = some registry ∧
            registry.roster.toList.count thread = 1 ∧
              ∀ other ∈ table.engines, ∀ target registry', world.registryOf? other = some target →
                world.registryAt? target = some registry' → thread ∈ registry'.roster →
                  other = engine

section
variable {history : History} {world : World} {flows : Nat → Flow} {table : Table} {index : Nat}
  {config : Config} {modes : List Mode} {number other : Nat} {thread thread' : Ref .thread}

theorem Creates.thread_eq (hrun : Runs {} history world flows)
    (hcreates : table.Creates world history number thread)
    (hcreates' : table.Creates world history number thread') : thread = thread' := by
  obtain ⟨engine, _, registry, story, _, hown, hthread⟩ := hcreates
  obtain ⟨engine', _, registry', story', _, hown', hthread'⟩ := hcreates'
  cases hown.symm.trans hown'
  rw [← enrolledIn_course (.create registry)] at hthread hthread'
  exact (hrun.begins hown).thread_of_create hthread hthread'

theorem Creates.creation (hrun : Runs {} history world flows)
    (htable : (index, .finished (.buildTable config modes) (.ok table)) ∈ history)
    (hmodes : modes.length < UInt32.size) (hcreates : table.Creates world history number thread) :
    ∃ engine shape threads serial,
      table.Creation world history number thread engine shape threads serial := by
  obtain ⟨engine, hengine, registry, story, hregistry, hown, hthread⟩ := hcreates
  obtain ⟨shape, threads, hseats, hfounded⟩ := hrun.seats htable hmodes hengine
  obtain rfl : shape.registry = registry :=
    Option.some.inj (hseats.registryOf?.symm.trans hregistry)
  have hcourse := hthread
  rw [← enrolledIn_course (.create shape.registry)] at hcourse
  obtain ⟨threads', serial, mailbox, hseen, hclaim, hborn⟩ :=
    (hrun.begins hown).birth_of_create hcourse
  have hbears : ∀ happening ∈ (Operation.create shape.registry).course story,
      world.Bears happening := fun happening hmem =>
    hrun.bears _ (hrun.mem_history hown (Operation.mem_course.mp hmem).1)
  obtain rfl : threads' = threads :=
    Option.some.inj ((hbears _ hseen).symm.trans hseats.registry)
  refine ⟨engine, shape, threads', serial, hseats, hfounded, ?_, (hbears _ hborn).1, ?_⟩
  · refine Journal.mem_deeds.mpr ⟨claimed threads'.counter serial, ?_,
      Happening.claimed?_eq_some.mpr ⟨_, rfl⟩⟩
    rw [hown]
    exact List.mem_cons_of_mem _ (Operation.mem_course.mp hclaim).1
  · obtain ⟨length, henroll⟩ := mem_enrolledIn.mp hthread
    rw [hrun.roster]
    exact mem_enrolledIn.mpr ⟨length, hrun.mem_history hown henroll⟩

theorem Creation.registry {engine : Ref .engine} {shape : EngineShape} {threads : Registry.Shape}
    {serial : UInt64}
    (hcreation : table.Creation world history number thread engine shape threads serial) :
    ∃ registry, world.registryAt? shape.registry = some registry ∧ registry.shape = threads :=
  Option.map_eq_some_iff.mp hcreation.seats.registry

/-- Two creations with one identifier are one creation. -/
theorem Creation.number_eq {engine engine' : Ref .engine} {shape shape' : EngineShape}
    {threads threads' : Registry.Shape} {serial serial' : UInt64}
    (hrun : Runs {} history world flows) (hspares : table.Spares world history)
    (hcreation : table.Creation world history number thread engine shape threads serial)
    (hcreation' : table.Creation world history other thread' engine' shape' threads' serial')
    (hid : world.threadId? thread = world.threadId? thread') : number = other := by
  rw [hcreation.named, hcreation'.named] at hid
  obtain ⟨hcore, rfl⟩ : threads.core = threads'.core ∧ serial = serial' := by
    simpa using hid
  obtain rfl := hcreation.seats.engine_eq hcreation'.seats hcore
  obtain ⟨rfl, rfl⟩ := hcreation.seats.shape_eq hcreation'.seats
  obtain ⟨registry, hregistry, rfl⟩ := hcreation.registry
  have hfew := hspares engine (Array.mem_of_getElem? hcreation.seats.place) _ registry
    hcreation.seats.registryOf? hregistry
  have hnodup := hrun.serials_nodup hcreation.founded
    (Nat.lt_of_le_of_lt (hrun.serials_le hcreation.seats.registry) hfew)
  rw [serialsIn, ← hrun.deeds] at hnodup
  exact congrArg Prod.fst
    (List.inj_on_of_nodup_map hnodup hcreation.claim hcreation'.claim rfl)

theorem Creation.owner?_eq {engine : Ref .engine} {shape : EngineShape}
    {threads : Registry.Shape} {serial : UInt64}
    (hcreation : table.Creation world history number thread engine shape threads serial) :
    table.owner? world thread = some engine := by
  obtain ⟨object, hobject, hid⟩ := Option.map_eq_some_iff.mp hcreation.named
  have hplace := hcreation.seats.place
  rw [← hcreation.seats.core] at hplace
  rw [owner?, hobject, Option.bind_some, hid]
  exact hplace

/-- An engine that lists the thread is the one whose registry it was created in. -/
theorem Creation.engine_eq {engine engine' : Ref .engine} {shape : EngineShape}
    {threads : Registry.Shape} {serial : UInt64} {target : Ref .registry}
    (hrun : Runs {} history world flows)
    (htable : (index, .finished (.buildTable config modes) (.ok table)) ∈ history)
    (hmodes : modes.length < UInt32.size)
    (hcreation : table.Creation world history number thread engine shape threads serial)
    (hengine : engine' ∈ table.engines) (htarget : world.registryOf? engine' = some target)
    (hlisted : thread ∈ world.ledger.roster target) : engine' = engine := by
  obtain ⟨shape', threads', hseats', _⟩ := hrun.seats htable hmodes hengine
  obtain rfl : shape'.registry = target :=
    Option.some.inj (hseats'.registryOf?.symm.trans htarget)
  have hregistry := hseats'.registry
  rw [hrun.roster_apart hlisted hcreation.listed, hcreation.seats.registry] at hregistry
  obtain rfl : threads = threads' := Option.some.inj hregistry
  exact hseats'.engine_eq hcreation.seats rfl

end

/-- The threads of a table are told apart by their identifiers. -/
theorem coherent_of_run? {count : Nat} {moves : List (Nat × Move)} {machine : Machine}
    {history : History} {index : Nat} {config : Config} {modes : List Mode} {table : Table}
    (hrun : (Machine.idle {} count).run? moves = some (machine, history))
    (htable : (index, .finished (.buildTable config modes) (.ok table)) ∈ history)
    (hmodes : modes.length < UInt32.size) (hspares : table.Spares machine.world history) :
    table.Coherent machine.world history := by
  have hruns := Machine.runs_of_run? hrun
  have hdistinct : ∀ {number other thread thread'},
      table.Creates machine.world history number thread →
        table.Creates machine.world history other thread' →
          machine.world.threadId? thread = machine.world.threadId? thread' →
            number = other ∧ thread = thread' := by
    intro number other thread thread' hcreates hcreates' hid
    obtain ⟨_, _, _, _, hcreation⟩ := hcreates.creation hruns htable hmodes
    obtain ⟨_, _, _, _, hcreation'⟩ := hcreates'.creation hruns htable hmodes
    obtain rfl := hcreation.number_eq hruns hspares hcreation' hid
    exact ⟨rfl, hcreates.thread_eq hruns hcreates'⟩
  refine ⟨?_, ?_, hdistinct, ?_, ?_, ?_⟩
  · intro engine registry number story thread hengine hregistry hown hfinished
    exact ⟨engine, hengine, registry, story, hregistry, hown,
      Registry.mem_enrolledIn_of_finished hruns hown hfinished⟩
  · intro engine target registry thread hengine htarget hregistry hthread
    rw [← Array.mem_toList_iff, ← World.ledger_roster hregistry, hruns.roster] at hthread
    obtain ⟨number, story, hown, henrolled⟩ := Registry.creator_of_enrolled hruns hthread
    exact ⟨number, engine, hengine, target, story, htarget, hown, henrolled⟩
  · intro number other thread thread' hcreates hcreates'
    refine ⟨rfl, fun hsame => ?_, fun hid => ?_⟩
    · rw [of_decide_eq_true hsame]
    · exact decide_eq_true (hdistinct hcreates hcreates' hid).2
  · exact fun _ => ⟨rfl, rfl⟩
  · intro number thread hcreates
    obtain ⟨engine, shape, threads, serial, hcreation⟩ := hcreates.creation hruns htable hmodes
    obtain ⟨registry, hregistry, rfl⟩ := hcreation.registry
    obtain ⟨object, hobject, rfl⟩ := Option.map_eq_some_iff.mp hcreation.seats.engine
    refine ⟨_, engine, object, registry, hcreation.named, hcreation.owner?_eq, ?_, hobject,
      hcreation.seats.core.symm, hregistry, ?_, ?_⟩
    · rw [hcreation.seats.core]
      exact hcreation.seats.place
    · rw [← World.ledger_roster hregistry]
      exact List.count_eq_one_of_mem (hruns.roster_nodup _) hcreation.listed
    · intro engine' hengine' target registry' htarget hregistry' hlisted
      rw [← Array.mem_toList_iff, ← World.ledger_roster hregistry'] at hlisted
      exact hcreation.engine_eq hruns htable hmodes hengine' htarget hlisted

open Schedule

/-- A table of two engines is built; then threads are created in both registries, two of them in
flows that take turns. -/
def concurrentCreations : List (Nat × Move) :=
  inFlow 0 (along (.buildTable {} [.execution, .execution]) 7) ++
    ((inFlow 0 (creating ⟨0⟩)).zip (inFlow 1 (creating ⟨1⟩))).flatMap (fun (left, right) =>
      [left, right]) ++ inFlow 1 (creating ⟨0⟩)

theorem coherent_concurrentCreations : ∃ machine history table,
    (Machine.idle {} 2).run? concurrentCreations = some (machine, history) ∧
      (0, .finished (.buildTable {} [.execution, .execution]) (.ok table)) ∈ history ∧
        table.Spares machine.world history ∧
          machine.world.threads.toList.map (·.id) = [⟨⟨0⟩, 1⟩, ⟨⟨1⟩, 1⟩, ⟨⟨0⟩, 2⟩] ∧
            table.Coherent machine.world history := by
  have hsome : ((Machine.idle {} 2).run? concurrentCreations).isSome := by rfl
  obtain ⟨⟨machine, history⟩, hrun⟩ := Option.isSome_iff_exists.mp hsome
  have hbuilt : (((Machine.idle {} 2).run? concurrentCreations).bind fun outcome => outcome.2[8]?) =
      some (0, .finished (.buildTable {} [.execution, .execution]) (.ok ⟨#[⟨0⟩, ⟨1⟩]⟩)) := by rfl
  have hlength : (((Machine.idle {} 2).run? concurrentCreations).map fun outcome =>
      outcome.2.length) = some 51 := by rfl
  have hids : (((Machine.idle {} 2).run? concurrentCreations).map fun outcome =>
      outcome.1.world.threads.toList.map (·.id)) = some [⟨⟨0⟩, 1⟩, ⟨⟨1⟩, 1⟩, ⟨⟨0⟩, 2⟩] := by rfl
  rw [hrun] at hbuilt hlength hids
  replace hlength : history.length = 51 := Option.some.inj hlength
  have htable := List.mem_of_getElem? hbuilt
  have hspares : Spares ⟨#[⟨0⟩, ⟨1⟩]⟩ machine.world history := by
    intro engine hengine target registry htarget hregistry
    refine Nat.lt_of_le_of_lt List.countP_le_length ?_
    rw [List.length_map, hlength]
    decide
  exact ⟨machine, history, _, hrun, htable, hspares, Option.some.inj hids,
    coherent_of_run? hrun htable (by decide) hspares⟩

end Table

end CoreEngines
