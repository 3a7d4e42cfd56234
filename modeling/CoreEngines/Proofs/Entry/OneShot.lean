import CoreEngines.Proofs.Chronicles
import CoreEngines.Proofs.Entry.Ways
import CoreEngines.Proofs.Permanence
import CoreEngines.Proofs.Schedules

/-!
Entries.  An engine is entered once: the first entry to come to the flag passes it, whatever becomes
of it then, and every other one is refused.  So no second manager is ever asked for, and no context
ever replaced.
-/

namespace CoreEngines

namespace Engine

/-- An entry of the engine that has asked for a manager, or waits for one. -/
def Asks (target : Ref .engine) (machine : Machine) (history : History) (number : Nat) : Prop :=
  (∃ story, (Journal.ofHistory history).own number = .started (.enter target) :: story ∧
    managersIn story ≠ []) ∨
    ∃ core startup next, machine.InProgress history number
      ⟨.enter target, .ask (.createManager core startup) next⟩

/-- What a run has made of the entries of an engine. -/
structure OneShot (target : Ref .engine) (engine : Engine) (machine : Machine)
    (history : History) : Prop where
  /-- The first entry to come to the flag finds it down, and all others find it up. -/
  guards : (guardsIn target (history.map Prod.snd) = [] ∧ engine.entered = false) ∨
    ∃ others, guardsIn target (history.map Prod.snd) = false :: List.replicate others true ∧
      engine.entered = true
  /-- An entry comes to the flag once, -/
  once : ∀ {number story},
    (Journal.ofHistory history).own number = .started (.enter target) :: story →
      (guardsIn target story).length ≤ 1
  /-- and none returns that has not come to it, -/
  came : ∀ {number story result},
    (Journal.ofHistory history).own number = .started (.enter target) :: story →
      .finished (.enter target) result ∈ story → guardsIn target story ≠ []
  /-- so there is one entry that has passed it. -/
  first : ∀ {number other},
    .acted (.engine target .enter) false ∈ (Journal.ofHistory history).own number →
      .acted (.engine target .enter) false ∈ (Journal.ofHistory history).own other →
        number = other
  /-- Whoever finds the flag up has nothing left to do but to fail, -/
  refused : ∀ {number rest}, machine.InProgress history number ⟨.enter target, rest⟩ →
    .acted (.engine target .enter) true ∈ (Journal.ofHistory history).own number →
      rest = .done (.error (.violation (.enteredTwice engine.shape.core)))
  /-- and so it does. -/
  raised : ∀ {number story result},
    (Journal.ofHistory history).own number = .started (.enter target) :: story →
      .acted (.engine target .enter) true ∈ story → .finished (.enter target) result ∈ story →
        result = .error (.violation (.enteredTwice engine.shape.core))
  /-- Whatever becomes of the entry that has passed the flag, all others that return have failed
  so. -/
  others : ∀ {number other story story' result},
    (Journal.ofHistory history).own number = .started (.enter target) :: story →
      .acted (.engine target .enter) false ∈ story → other ≠ number →
        (Journal.ofHistory history).own other = .started (.enter target) :: story' →
          .finished (.enter target) result ∈ story' →
            result = .error (.violation (.enteredTwice engine.shape.core))
  /-- An entry that has asked for a manager has passed the flag on the engine's own core, and has
  asked once. -/
  called : ∀ {number story},
    (Journal.ofHistory history).own number = .started (.enter target) :: story →
      managersIn story = [] ∨
        managersIn story = [(engine.shape.core, startsUp engine.shape)] ∧
          Entitled target engine.shape story
  /-- The same goes for one that waits for its manager. -/
  awaited : ∀ {number core startup next},
    machine.InProgress history number ⟨.enter target, .ask (.createManager core startup) next⟩ →
      managersIn ((Journal.ofHistory history).own number) = [] ∧
        (core, startup) = (engine.shape.core, startsUp engine.shape) ∧
          Entitled target engine.shape ((Journal.ofHistory history).own number)
  /-- So one manager is asked for, if any. -/
  sole : ∀ {number other}, Asks target machine history number →
    Asks target machine history other → number = other
  /-- No entry that has passed the flag finds a context. -/
  absent : ∀ {number story context},
    (Journal.ofHistory history).own number = .started (.enter target) :: story →
      .acted (.engine target .context) (some context) ∉ story
  /-- A context that is there stays, -/
  kept : ∀ {context moves machine' happened},
    machine.world.contextOf? target = some context →
      machine.run? moves = some (machine', happened) →
        machine'.world.contextOf? target = some context
  /-- and has been made for the engine, by the entry that has passed the flag. -/
  present : ∀ {place}, engine.context.value? = some place →
    engine.entered = true ∧ engine.shape.mode = .execution ∧
      ∃ context manager, machine.world.contextAt? place = some context ∧
        context.shape = contextShape engine.shape manager

section
variable {history : History} {world : World} {flows : Nat → Flow} {target : Ref .engine}
  {number other : Nat} {story : List Happening}

theorem guardsIn_course (target engine : Ref .engine) (story : List Happening) :
    guardsIn target ((Operation.enter engine).course story) = guardsIn target story := by
  refine Operation.filterMap_course (fun happening entered hguard => ?_)
    (Operation.entry_mem_traits _)
  rw [Happening.guard?_eq_some.mp hguard]
  rfl

theorem managersIn_course (engine : Ref .engine) (story : List Happening) :
    managersIn ((Operation.enter engine).course story) = managersIn story := by
  refine Operation.filterMap_course (fun happening awaited hmanager => ?_)
    (show .host ∈ (Operation.enter engine).traits by simp [Operation.traits])
  obtain ⟨result, hmem⟩ := mem_managersIn.mp
    (List.mem_filterMap.mpr ⟨happening, List.mem_singleton_self _, hmanager⟩)
  rw [← List.mem_singleton.mp hmem]
  rfl

theorem mem_course_of_access {engine : Ref .engine} {access : Access} {answer : access.Answer}
    (hmem : .acted (.engine engine access) answer ∈ story) :
    .acted (.engine engine access) answer ∈ (Operation.enter target).course story := by
  cases access <;> exact Operation.mem_course_of_topic hmem rfl (by simp [Operation.traits])

theorem first_of_runs (hrun : Runs {} history world flows)
    (hnumber : .acted (.engine target .enter) false ∈ (Journal.ofHistory history).own number)
    (hother : .acted (.engine target .enter) false ∈ (Journal.ofHistory history).own other) :
    number = other := by
  have hdeed : ∀ {one}, .acted (.engine target .enter) false ∈
      (Journal.ofHistory history).own one →
        (one, false) ∈ (Journal.ofHistory history).deeds (·.guard? target) := fun hmem =>
    Journal.mem_deeds.mpr ⟨_, hmem, Happening.guard?_eq_some.mpr rfl⟩
  have htold : ((Journal.ofHistory history).deeds (·.guard? target)).map Prod.snd =
      guardsIn target (history.map Prod.snd) := hrun.deeds _
  have hnumber := hdeed hnumber
  have hother := hdeed hother
  obtain ⟨hnone, _⟩ | ⟨others, hothers, _⟩ := hrun.guards target
  · rw [hnone, List.map_eq_nil_iff] at htold
    rw [htold] at hnumber
    cases hnumber
  · rw [hothers] at htold
    obtain ⟨head, rest, hdeeds, _, hrest⟩ := List.map_eq_cons_iff.mp htold
    have honly : ∀ one, (one, false) ∈ head :: rest → (one, false) = head := by
      intro one hmem
      refine (List.mem_cons.mp hmem).resolve_right fun hlater => ?_
      have hup : false ∈ List.replicate others true := hrest ▸ List.mem_map_of_mem hlater
      cases List.eq_of_mem_replicate hup
    rw [hdeeds] at hnumber hother
    exact congrArg Prod.fst ((honly number hnumber).trans (honly other hother).symm)

theorem shape_of_runs {shape : EngineShape} {engine : Engine} (hrun : Runs {} history world flows)
    (hengine : world.engineAt? target = some engine)
    (hown : (Journal.ofHistory history).own number = .started (.enter target) :: story)
    (hmem : .acted (.engine target .shape) shape ∈ story) : shape = engine.shape := by
  have hshape : world.engineShape? target = some shape :=
    hrun.bears _ (hrun.mem_history hown hmem)
  simpa [World.engineShape?, hengine] using hshape.symm

/-- An entry that was refused has nothing left to do. -/
theorem done_of_refusal {shape : EngineShape} {rest : Program Unit}
    (hensures : rest.Ensures coursing ⟨.enter target, refusal target shape⟩
      (coursing.Returns (.enter target))) :
    rest = .done (.error (.violation (.enteredTwice shape.core))) := by
  have hstuck : ¬ (Operation.enter target).Proceeds (refusal target shape) := by
    simp [Operation.Proceeds, refusal]
  cases rest with
  | done result =>
      obtain ⟨_, hends⟩ := hensures
      rw [hends shape rfl]
  | act action next =>
      obtain ⟨answer⟩ := action.nonempty_answer
      exact absurd (hensures answer trivial).1.proceeds hstuck
  | emit event next => exact absurd (hensures trivial).1.proceeds hstuck
  | choose next => exact absurd (hensures false trivial).1.proceeds hstuck
  | ask callback next => exact absurd (hensures (.error .aborted) trivial).1.proceeds hstuck
  | call procedure next => exact absurd (hensures trivial).1.proceeds hstuck

theorem refusal_of_runs {engine : Engine} (hrun : Runs {} history world flows)
    (hengine : world.engineAt? target = some engine)
    (hown : (Journal.ofHistory history).own number = .started (.enter target) :: story)
    (hmem : .acted (.engine target .enter) true ∈ story) :
    (Operation.enter target).course story = refusal target engine.shape := by
  obtain ⟨shape, hcourse⟩ := refusal_of_begins (hrun.begins hown) (mem_course_of_access hmem)
  have hshape : .acted (.engine target .shape) shape ∈ (Operation.enter target).course story := by
    simp [hcourse, refusal]
  rw [← shape_of_runs hrun hengine hown (Operation.mem_course.mp hshape).1]
  exact hcourse

/-- An entry that has returned had come to the flag. -/
theorem guarded_of_finished {result : Except Failure Unit} (hrun : Runs {} history world flows)
    (hown : (Journal.ofHistory history).own number = .started (.enter target) :: story)
    (hfinished : .finished (.enter target) result ∈ story) :
    ∃ entered, .acted (.engine target .enter) entered ∈ story := by
  obtain ⟨steps, rfl, hreaches⟩ := hrun.reaches_of_finished hown hfinished
  obtain ⟨shape, late, rfl, hguard⟩ := Program.reaches_perform_bind_done hreaches
  obtain ⟨entered, late, rfl, _⟩ := Program.reaches_perform_bind_done hguard
  exact ⟨entered, by simp⟩

/-- An entry that has returned was refused, if another one has passed the flag. -/
theorem refused_of_finished {engine : Engine} {story' : List Happening}
    {result : Except Failure Unit} (hrun : Runs {} history world flows)
    (hengine : world.engineAt? target = some engine)
    (hown : (Journal.ofHistory history).own number = .started (.enter target) :: story)
    (hpassed : .acted (.engine target .enter) false ∈ story) (hother : other ≠ number)
    (hown' : (Journal.ofHistory history).own other = .started (.enter target) :: story')
    (hfinished : .finished (.enter target) result ∈ story') :
    result = .error (.violation (.enteredTwice engine.shape.core)) := by
  obtain ⟨entered, hguard⟩ := guarded_of_finished hrun hown' hfinished
  cases entered with
  | false =>
      exact absurd (first_of_runs hrun (hown' ▸ List.mem_cons_of_mem _ hguard)
        (hown ▸ List.mem_cons_of_mem _ hpassed)) hother
  | true =>
      exact hrun.ends hown' hfinished engine.shape (refusal_of_runs hrun hengine hown' hguard)

/-- An entry has asked for the engine's own manager, if for any. -/
theorem managers_of_runs {engine : Engine} (hrun : Runs {} history world flows)
    (hengine : world.engineAt? target = some engine)
    (hown : (Journal.ofHistory history).own number = .started (.enter target) :: story) :
    managersIn story = [] ∨ managersIn story = [(engine.shape.core, startsUp engine.shape)] ∧
      Entitled target engine.shape story := by
  rw [← managersIn_course target story]
  refine (managers_of_begins (hrun.begins hown)).imp_right ?_
  rintro ⟨shape, hmanagers, hentitled⟩
  have hstory := hentitled.mono (List.filter_subset_self story)
  rw [← shape_of_runs hrun hengine hown hstory.shaped]
  exact ⟨hmanagers, hstory⟩

/-- What an entry that waits for a manager has done so far. -/
theorem entitled_of_awaiting {made : List Happening} {core : CoreId} {startup : Bool}
    {result : Except Failure ManagerRef}
    (hbegins : (Operation.enter target).Begins
      (made ++ [Happening.answered (.createManager core startup) result])) :
    managersIn made = [] ∧
      ∃ shape, (core, startup) = (shape.core, startsUp shape) ∧ Entitled target shape made := by
  have hmanagers : managersIn (made ++ [Happening.answered (.createManager core startup) result]) =
      managersIn made ++ [(core, startup)] :=
    List.filterMap_append
  obtain hnone | ⟨shape, hone, hshaped, hpassed, hlocated, hmode⟩ := managers_of_begins hbegins
  · rw [hmanagers] at hnone
    cases List.append_ne_nil_of_right_ne_nil _ (List.cons_ne_nil _ _) hnone
  · rw [hmanagers] at hone
    obtain ⟨hnone, hlast⟩ := List.append_inj' (hone.trans (List.nil_append _).symm) rfl
    refine ⟨hnone, shape, List.singleton_inj.mp hlast, ?_, ?_, ?_, hmode⟩
    · exact (List.mem_append.mp hshaped).resolve_right fun hlast => by
        cases List.mem_singleton.mp hlast
    · exact (List.mem_append.mp hpassed).resolve_right fun hlast => by
        cases List.mem_singleton.mp hlast
    · exact (List.mem_append.mp hlocated).resolve_right fun hlast => by
        cases List.mem_singleton.mp hlast

theorem awaited_of_runs {engine : Engine} {core : CoreId} {startup : Bool}
    {next : Except Failure ManagerRef → Program Unit} (hrun : Runs {} history world flows)
    (hengine : world.engineAt? target = some engine)
    (haccounts : coursing.Accounts (.ofHistory history) number
      ⟨.enter target, .ask (.createManager core startup) next⟩) :
    managersIn ((Journal.ofHistory history).own number) = [] ∧
      (core, startup) = (engine.shape.core, startsUp engine.shape) ∧
        Entitled target engine.shape ((Journal.ofHistory history).own number) := by
  obtain ⟨story, hown, _, _, hensures⟩ := haccounts
  rw [coursing_after] at hensures
  have hmarks : (Operation.enter target).marks
      (.answered (.createManager core startup) (.error .aborted)) = true :=
    Operation.marks_of_topic rfl (by simp [Operation.traits])
  obtain ⟨hnone, shape, hright, hentitled⟩ :=
    entitled_of_awaiting (begins_of_asking hmarks hensures)
  have hstory := hentitled.mono (List.filter_subset_self story)
  rw [managersIn_course] at hnone
  rw [hown, ← shape_of_runs hrun hengine hown hstory.shaped]
  exact ⟨hnone, hright, hstory.mono (List.subset_cons_self _ story)⟩

/-- A context is filled in by an entry that has passed the flag and made it. -/
theorem builder_of_runs {place : Ref .context} (hrun : Runs {} history world flows)
    (hfilled : .acted (.engine target (.fillContext place)) () ∈ history.map Prod.snd) :
    ∃ number story, (Journal.ofHistory history).own number = .started (.enter target) :: story ∧
      .acted (.engine target (.fillContext place)) () ∈ (Operation.enter target).course story ∧
        ∃ shape manager, Entitled target shape story ∧
          .acted (.newContext (contextShape shape manager)) place ∈ story := by
  obtain ⟨⟨index, _⟩, hentry, rfl⟩ := List.mem_map.mp hfilled
  obtain ⟨number, operation, story, hown, hcourse, hbegins, htopic⟩ :=
    hrun.doer_of_topic hentry rfl Operation.entry_mem_traits
  obtain ⟨other, rfl⟩ := Operation.enter_of_entry htopic
  obtain rfl := engine_of_begins hbegins hcourse
  obtain ⟨shape, manager, hentitled, hmade⟩ := built_of_begins hbegins hcourse
  exact ⟨number, story, hown, hcourse, shape, manager,
    hentitled.mono (List.filter_subset_self story),
    (Operation.mem_course.mp hmade).1⟩

/-- No entry that has passed the flag finds a context: whoever has filled it in had passed the flag
before. -/
theorem absent_of_runs {place : Ref .context} (hrun : Runs {} history world flows)
    (hown : (Journal.ofHistory history).own number = .started (.enter target) :: story) :
    .acted (.engine target .context) (some place) ∉ story := by
  intro hmem
  obtain ⟨shape, hcourse⟩ := doubled_of_begins (hrun.begins hown) (mem_course_of_access hmem)
  have hpassed : .acted (.engine target .enter) false ∈ (Operation.enter target).course story := by
    simp [hcourse, passing]
  obtain ⟨⟨index, _⟩, hentry, rfl⟩ := List.mem_map.mp (hrun.mem_history hown hmem)
  obtain ⟨before, after, hhistory⟩ := List.append_of_mem hentry
  obtain ⟨world, later, flows, hbefore, hafter⟩ := (hhistory ▸ hrun).moment
  have hfilled : .acted (.engine target (.fillContext place)) () ∈ history.map Prod.snd := by
    rw [hhistory, List.map_append]
    exact List.mem_append_left _ (hbefore.filled (World.contextOf?_of_look hafter))
  obtain ⟨other, story', hown', hfill, _, _, hentitled, _⟩ := builder_of_runs hrun hfilled
  obtain rfl : number = other := by
    apply first_of_runs hrun
    · exact hown ▸ List.mem_cons_of_mem _ (Operation.mem_course.mp hpassed).1
    · exact hown' ▸ List.mem_cons_of_mem _ hentitled.passed
  cases hown.symm.trans hown'
  rw [hcourse] at hfill
  simp [passing] at hfill

/-- A context that is there is the one that an engine needs. -/
theorem present_of_runs {engine : Engine} {place : Ref .context}
    (hrun : Runs {} history world flows)
    (hengine : world.engineAt? target = some engine)
    (hcontext : engine.context.value? = some place) :
    engine.entered = true ∧ engine.shape.mode = .execution ∧
      ∃ context manager, world.contextAt? place = some context ∧
        context.shape = contextShape engine.shape manager := by
  have hplace : world.contextOf? target = some place := by
    simp [World.contextOf?, hengine, hcontext]
  obtain ⟨number, story, hown, _, shape, manager, hentitled, hmade⟩ :=
    builder_of_runs hrun (hrun.filled hplace)
  obtain rfl := shape_of_runs hrun hengine hown hentitled.shaped
  refine ⟨?_, hentitled.mode, ?_⟩
  · have hpassed := mem_guardsIn.mpr (hrun.mem_history hown hentitled.passed)
    obtain ⟨hnone, _⟩ | ⟨_, _, hup⟩ := hrun.guards target
    · rw [hnone] at hpassed
      cases hpassed
    · simpa [World.entered, hengine] using hup
  · have hshape : world.contextShape? place = some (contextShape engine.shape manager) :=
      hrun.bears _ (hrun.mem_history hown hmade)
    obtain ⟨context, hat, hsame⟩ := Option.map_eq_some_iff.mp hshape
    exact ⟨context, manager, hat, hsame⟩

end

theorem contextOf?_of_run? {target : Ref .engine} {place : Ref .context}
    {machine machine' : Machine} {moves : List (Nat × Move)} {happened : History}
    (hcontext : machine.world.contextOf? target = some place)
    (hrun : machine.run? moves = some (machine', happened)) :
    machine'.world.contextOf? target = some place :=
  Machine.keeps_run? (fun world => world.contextOf? target = some place)
    (fun hcontext hafter => (World.context_after hafter).1 hcontext) hrun hcontext

/-- Engines are entered once, however many flows try to, and whatever callbacks do. -/
theorem oneShot_of_run? {count : Nat} {moves : List (Nat × Move)} {machine : Machine}
    {history : History} {target : Ref .engine} {engine : Engine}
    (hrun : (Machine.idle {} count).run? moves = some (machine, history))
    (hengine : machine.world.engineAt? target = some engine) :
    OneShot target engine machine history := by
  have hruns := Machine.runs_of_run? hrun
  have hentered : machine.world.entered target = engine.entered := by
    simp [World.entered, hengine]
  have hcalled : ∀ {number story},
      (Journal.ofHistory history).own number = .started (.enter target) :: story →
        managersIn story = [] ∨
          managersIn story = [(engine.shape.core, startsUp engine.shape)] ∧
            Entitled target engine.shape story := fun hown => managers_of_runs hruns hengine hown
  have hawaited : ∀ {number core startup next},
      machine.InProgress history number
        ⟨.enter target, .ask (.createManager core startup) next⟩ →
          managersIn ((Journal.ofHistory history).own number) = [] ∧
            (core, startup) = (engine.shape.core, startsUp engine.shape) ∧
              Entitled target engine.shape ((Journal.ofHistory history).own number) :=
    fun hprogress => awaited_of_runs hruns hengine (hprogress.accounts hruns.coursing)
  have hasks : ∀ {number}, Asks target machine history number →
      .acted (.engine target .enter) false ∈ (Journal.ofHistory history).own number := by
    rintro number (⟨story, hown, hmanagers⟩ | ⟨core, startup, next, hprogress⟩)
    · obtain ⟨_, hentitled⟩ := (hcalled hown).resolve_left hmanagers
      exact hown ▸ List.mem_cons_of_mem _ hentitled.passed
    · exact (hawaited hprogress).2.2.passed
  refine ⟨?_, ?_, ?_, ?_, ?_, ?_, ?_, hcalled, hawaited, ?_, ?_, ?_, ?_⟩
  · exact hentered ▸ hruns.guards target
  · intro number story hown
    rw [← guardsIn_course target target]
    exact guards_of_begins (hruns.begins hown) target
  · intro number story result hown hfinished
    obtain ⟨entered, hguard⟩ := guarded_of_finished hruns hown hfinished
    exact List.ne_nil_of_mem (mem_guardsIn.mpr hguard)
  · exact fun hnumber hother => first_of_runs hruns hnumber hother
  · intro number rest hprogress hmem
    obtain ⟨story, hown, _, _, hensures⟩ := hprogress.accounts hruns.coursing
    rw [hown] at hmem
    have hmem : .acted (.engine target .enter) true ∈ story := by simpa using hmem
    rw [coursing_after, refusal_of_runs hruns hengine hown hmem] at hensures
    exact done_of_refusal hensures
  · intro number story result hown hmem hfinished
    exact hruns.ends hown hfinished engine.shape (refusal_of_runs hruns hengine hown hmem)
  · exact fun hown hpassed hother hown' hfinished =>
      refused_of_finished hruns hengine hown hpassed hother hown' hfinished
  · exact fun hnumber hother => first_of_runs hruns (hasks hnumber) (hasks hother)
  · exact fun hown => absent_of_runs hruns hown
  · exact fun hcontext hmoves => contextOf?_of_run? hcontext hmoves
  · exact fun hcontext => present_of_runs hruns hengine hcontext

open Schedule

/-- The only engine of a table is entered.  While it waits for its manager, whoever makes the
manager enters it again, and so does another flow. -/
def repeatedEntries : List (Nat × Move) :=
  inFlow 0 (along (.buildTable { bootstrapCore := ⟨0⟩ } [.execution]) 4 ++ entering ⟨0⟩ ⟨0⟩ ++
    along (.enter ⟨0⟩) 2) ++
  inFlow 1 (along (.enter ⟨0⟩) 2) ++
  inFlow 0 ([Move.answer (.createManager ⟨0⟩ true) (.ok ⟨0⟩)] ++ steps 6 ++
    [Move.answer (.hasThreads ⟨0⟩) (.ok false), .finish])

theorem oneShot_repeatedEntries : ∃ machine history engine,
    (Machine.idle {} 2).run? repeatedEntries = some (machine, history) ∧
      machine.world.engineAt? ⟨0⟩ = some engine ∧ engine.context = .ready ⟨0⟩ ∧
        guardsIn ⟨0⟩ (history.map Prod.snd) = [false, true, true] ∧
          OneShot ⟨0⟩ engine machine history := by
  have hsome : ((Machine.idle {} 2).run? repeatedEntries).isSome := by rfl
  obtain ⟨⟨machine, history⟩, hrun⟩ := Option.isSome_iff_exists.mp hsome
  have hengine : (((Machine.idle {} 2).run? repeatedEntries).bind fun outcome =>
      outcome.1.world.engineAt? ⟨0⟩) = some
        ⟨⟨⟨0⟩, .execution, { bootstrapCore := ⟨0⟩ }, ⟨0⟩⟩, true, .ready ⟨0⟩, .empty⟩ := by rfl
  have hguards : (((Machine.idle {} 2).run? repeatedEntries).map fun outcome =>
      guardsIn ⟨0⟩ (outcome.2.map Prod.snd)) = some [false, true, true] := by rfl
  rw [hrun] at hengine hguards
  exact ⟨machine, history, _, hrun, hengine, rfl, Option.some.inj hguards,
    oneShot_of_run? hrun hengine⟩

end Engine

end CoreEngines
