import CoreEngines.Proofs.Entry.OneShot
import CoreEngines.Proofs.Moments

/-!
Publication of contexts.  The context of an engine is published when it is filled in, by the one
entry that has passed the flag, and from then on everybody sees it; until then, and where that
entry fails, nobody sees any.  Each context belongs to one engine.
-/

namespace CoreEngines

namespace World

variable {world : World} {target : Ref .engine} {place : Ref .context} {engine : Engine}

/-- Looking for a context changes nothing, -/
theorem perform?_look (hengine : world.engineAt? target = some engine) :
    world.perform? (.engine target .context) = some (world.contextOf? target, world) := by
  simp [perform?, contextOf?, hengine, Engine.access?,
    setIfInBounds_self (show world.engines[target.index]? = some engine from hengine)]

/-- nor does looking at an engine, -/
theorem perform?_engineShape (hengine : world.engineAt? target = some engine) :
    world.perform? (.engine target .shape) = some (engine.shape, world) := by
  simp [perform?, hengine, Engine.access?,
    setIfInBounds_self (show world.engines[target.index]? = some engine from hengine)]

/-- nor at a context. -/
theorem perform?_contextShape {shape : ContextShape}
    (hshape : world.contextShape? place = some shape) :
    world.perform? (.context place .shape) = some (shape, world) := by
  obtain ⟨context, hcontext, rfl⟩ := Option.map_eq_some_iff.mp hshape
  simp [perform?, hcontext, Context.access?,
    setIfInBounds_self (show world.contexts[place.index]? = some context from hcontext)]

end World

def Happening.context? : Happening → Option (Ref .context)
  | .acted (.newContext _) place => some place
  | _ => none

theorem World.contexts_after {world later : World} {happening : Happening}
    (hafter : world.After happening later) :
    (happening.context? = none ∧ later.contexts.size = world.contexts.size) ∨
      happening.context? = some ⟨world.contexts.size⟩ ∧
        later.contexts.size = world.contexts.size + 1 := by
  cases happening with
  | acted action answer =>
      cases effect_of_perform? hafter with
      | context hobject haccess => exact Or.inl ⟨rfl, Array.size_setIfInBounds⟩
      | newContext shape => exact Or.inr ⟨rfl, Array.size_push _⟩
      | _ => exact Or.inl ⟨rfl, rfl⟩
  | _ =>
      obtain rfl : later = world := hafter
      exact Or.inl ⟨rfl, rfl⟩

/-- Contexts are numbered as they are made. -/
theorem Runs.contexts {history : History} {world : World} {flows : Nat → Flow}
    (hrun : Runs {} history world flows) :
    (history.map Prod.snd).filterMap Happening.context? =
      (List.range world.contexts.size).map Ref.mk := by
  refine hrun.keeps (fun history world => (history.map Prod.snd).filterMap Happening.context? =
    (List.range world.contexts.size).map Ref.mk) rfl ?_
  intro history world happening later index hcontexts hafter
  rw [List.map_append, List.filterMap_append, hcontexts]
  obtain ⟨hnone, hsize⟩ | ⟨hmade, hsize⟩ := World.contexts_after hafter
  · simp [hnone, hsize]
  · simp [hmade, hsize, List.range_succ]

namespace Engine

variable {history before after : History} {world : World} {flows : Nat → Flow}
  {target other : Ref .engine} {place : Ref .context} {number : Nat} {story : List Happening}

/-- An entry that has published a context, from its start to the publication. -/
def publishing (engine : Ref .engine) (shape : EngineShape) (manager : ManagerRef)
    (context : Ref .context) : List Happening :=
  arrival engine shape ++
    [Happening.acted (.engine engine .claimContext) .granted,
     .answered (.createManager shape.core (startsUp shape)) (.ok manager),
     .acted (.newContext (contextShape shape manager)) context,
     .acted (.engine engine (.fillContext context)) ()]

theorem publishing_of_begins {engine : Ref .engine} {made : List Happening}
    (hbegins : (Operation.enter engine).Begins made)
    (hmem : .acted (.engine engine (.fillContext place)) () ∈ made) :
    ∃ shape manager, shape.mode = .execution ∧ made = publishing engine shape manager place := by
  obtain ⟨path, hpath, hmade⟩ := hbegins
  have hmem' := hmade.mem hmem
  cases hpath with
  | built shape manager context hmode =>
      obtain rfl : place = context := by simpa [arrival, passing] using hmem'
      refine ⟨shape, manager, hmode, ?_⟩
      have hway : made <+: (arrival engine shape ++
          [Happening.acted (.engine engine .claimContext) .granted,
           .answered (.createManager shape.core (startsUp shape)) (.ok manager),
           .acted (.newContext (contextShape shape manager)) place]) ++
            [.acted (.engine engine (.fillContext place)) ()] := by
        simpa using hmade
      have hall := eq_of_mem_last hway hmem (by simp [arrival, passing])
      simpa [publishing] using hall
  | _ => simp [refusal, passing, arrival] at hmem'

/-- A published context has a publisher. -/
theorem publisher_of_fill (hrun : Runs {} history world flows)
    (hfill : .acted (.engine target (.fillContext place)) () ∈ history.map Prod.snd) :
    ∃ number story shape manager,
      (Journal.ofHistory history).own number = .started (.enter target) :: story ∧
        shape.mode = .execution ∧
          (Operation.enter target).course story = publishing target shape manager place := by
  obtain ⟨number, story, hown, hcourse, _⟩ := builder_of_runs hrun hfill
  obtain ⟨shape, manager, hmode, hall⟩ := publishing_of_begins (hrun.begins hown) hcourse
  exact ⟨number, story, shape, manager, hown, hmode, hall⟩

theorem passed_of_publishing {shape : EngineShape} {manager : ManagerRef}
    (hcourse : (Operation.enter target).course story = publishing target shape manager place) :
    .acted (.engine target .enter) false ∈ story := by
  have hpassed : .acted (.engine target .enter) false ∈ (Operation.enter target).course story := by
    simp [hcourse, publishing, arrival, passing]
  exact (Operation.mem_course.mp hpassed).1

/-- No second context is published for an engine. -/
theorem fill_unique {place' : Ref .context} (hrun : Runs {} history world flows)
    (hfill : .acted (.engine target (.fillContext place)) () ∈ history.map Prod.snd)
    (hfill' : .acted (.engine target (.fillContext place')) () ∈ history.map Prod.snd) :
    place = place' := by
  obtain ⟨number, story, shape, manager, hown, _, hcourse⟩ := publisher_of_fill hrun hfill
  obtain ⟨number', story', shape', manager', hown', _, hcourse'⟩ := publisher_of_fill hrun hfill'
  obtain rfl : number = number' := by
    apply first_of_runs hrun
    · exact hown ▸ List.mem_cons_of_mem _ (passed_of_publishing hcourse)
    · exact hown' ▸ List.mem_cons_of_mem _ (passed_of_publishing hcourse')
  cases hown.symm.trans hown'
  have hplace : .acted (.engine target (.fillContext place)) () ∈
      publishing target shape' manager' place' := by
    rw [← hcourse', hcourse]
    simp [publishing]
  simpa [publishing, arrival, passing] using hplace

/-- Whoever fills in a context leaves the engine with one. -/
theorem contextOf?_of_fill {later : World}
    (hafter : world.After (.acted (.engine target (.fillContext place)) ()) later) :
    ∃ found, later.contextOf? target = some found := by
  cases World.effect_of_perform? hafter with
  | @engine _ object _ _ _ hobject haccess =>
      cases haccess
      have hat := World.getElem?_setIfInBounds_self hobject
        { object with context := object.context.fill place }
      rw [World.contextOf?, World.engineAt?, hat]
      change ∃ found, (object.context.fill place).value? = some found
      cases object.context with
      | ready other => exact ⟨other, rfl⟩
      | _ => exact ⟨place, rfl⟩

/-- An engine has the context that was filled in, and from then on. -/
theorem contextOf?_iff (hrun : Runs {} history world flows) :
    world.contextOf? target = some place ↔
      .acted (.engine target (.fillContext place)) () ∈ history.map Prod.snd := by
  refine ⟨hrun.filled, hrun.grows (fun history world =>
    .acted (.engine target (.fillContext place)) () ∈ history.map Prod.snd →
      world.contextOf? target = some place) (by simp) ?_⟩
  intro history world flows later flows' happening index number hrun hlater hafter _ hholds hfill
  rw [List.map_append, List.mem_append, List.map_singleton, List.mem_singleton] at hfill
  rcases hfill with hfill | rfl
  · exact (World.context_after hafter).1 (hholds hfill)
  · obtain ⟨found, hfound⟩ := contextOf?_of_fill hafter
    obtain rfl : place = found := fill_unique hlater (by simp) (hlater.filled hfound)
    exact hfound

/-- Whoever looks for the context sees it as soon as it is published. -/
theorem seen_iff {index : Nat} {seen : Option (Ref .context)}
    (hrun : Runs {} (before ++ (index, .acted (.engine target .context) seen) :: after) world
      flows) :
    seen = some place ↔
      .acted (.engine target (.fillContext place)) () ∈ before.map Prod.snd := by
  obtain ⟨world, later, flows, hbefore, hafter⟩ := hrun.moment
  rw [← contextOf?_iff hbefore]
  cases World.effect_of_perform? hafter with
  | @engine _ object _ _ _ hobject haccess =>
      cases haccess
      rw [World.contextOf?, hobject]
      rfl

/-- No two engines share a context. -/
theorem engine_of_context (hrun : Runs {} history world flows)
    (htarget : world.contextOf? target = some place)
    (hother : world.contextOf? other = some place) : target = other := by
  have hnodup : ((history.map Prod.snd).filterMap Happening.context?).Nodup := by
    rw [hrun.contexts]
    exact List.nodup_range.map fun _ _ hsame => congrArg Ref.index hsame
  obtain ⟨number, story, hown, _, _, _, _, hmade⟩ := builder_of_runs hrun (hrun.filled htarget)
  obtain ⟨number', story', hown', _, _, _, _, hmade'⟩ := builder_of_runs hrun (hrun.filled hother)
  obtain rfl : number = number' :=
    hrun.doer_eq hnodup (hown ▸ List.mem_cons_of_mem _ hmade) rfl
      (hown' ▸ List.mem_cons_of_mem _ hmade') rfl
  cases hown.symm.trans hown'
  rfl

section
variable {shape : EngineShape}

/-- The entry that has published the context has gone all the way to its publication. -/
theorem course_of_context (hrun : Runs {} history world flows)
    (hcontext : world.contextOf? target = some place)
    (hown : (Journal.ofHistory history).own number = .started (.enter target) :: story)
    (hpassed : .acted (.engine target .enter) false ∈ story) :
    ∃ shape manager, shape.mode = .execution ∧
      (Operation.enter target).course story = publishing target shape manager place := by
  obtain ⟨number', story', shape, manager, hown', hmode, hcourse⟩ :=
    publisher_of_fill hrun (hrun.filled hcontext)
  obtain rfl : number = number' := by
    apply first_of_runs hrun
    · exact hown ▸ List.mem_cons_of_mem _ hpassed
    · exact hown' ▸ List.mem_cons_of_mem _ (passed_of_publishing hcourse)
  cases hown.symm.trans hown'
  exact ⟨shape, manager, hmode, hcourse⟩

/-- An entry has passed the flag when it asks for its core. -/
theorem passed_of_located {engine : Ref .engine} {made : List Happening}
    {located : Except Failure CoreId} (hbegins : (Operation.enter engine).Begins made)
    (hmem : .answered .currentCore located ∈ made) :
    .acted (.engine engine .enter) false ∈ made := by
  obtain ⟨path, hpath, hmade⟩ := hbegins
  have hmem' := hmade.mem hmem
  have hpoint : ∀ {located : Except Failure CoreId}, .answered .currentCore located ∈ made →
      path[3]? = some (.answered .currentCore located) →
        .answered .currentCore located ∉ path.take 3 →
          .acted (.engine engine .enter) false ∈ path.take 3 →
            .acted (.engine engine .enter) false ∈ made := fun hmem hplace honce hpassed =>
    take_subset_of_mem hmade hplace honce hmem hpassed
  cases hpath with
  | refused shape => simp [refusal] at hmem'
  | doubled shape context => simp [passing] at hmem'
  | astray shape other hother =>
      obtain rfl : located = other := by simpa [passing] using hmem'
      exact hpoint hmem rfl (by simp [passing]) (by simp [passing])
  | _ =>
      obtain rfl : located = .ok _ := by simpa [arrival, passing] using hmem'
      exact hpoint hmem rfl (by simp [arrival, passing]) (by simp [arrival, passing])

/-- There is no context where nobody has entered, -/
theorem absent_of_unentered (hrun : Runs {} history world flows)
    (hnone : ∀ index, (index, .started (.enter target)) ∉ history) :
    world.contextOf? target = none := by
  rw [Option.eq_none_iff_forall_ne_some]
  intro place hcontext
  obtain ⟨number, story, _, _, hown, _⟩ := publisher_of_fill hrun (hrun.filled hcontext)
  have htold := Journal.mem_of_own (hown ▸ List.mem_cons_self)
  rw [hrun.journal.2] at htold
  obtain ⟨⟨index, _⟩, hentry, rfl⟩ := List.mem_map.mp htold
  exact hnone index hentry

/-- nor where the entry that has passed the flag was on a wrong core, or was told none, -/
theorem absent_of_astray {located : Except Failure CoreId} (hrun : Runs {} history world flows)
    (hshape : world.engineShape? target = some shape)
    (hown : (Journal.ofHistory history).own number = .started (.enter target) :: story)
    (hlocated : .answered .currentCore located ∈ story) (hastray : located ≠ .ok shape.core) :
    world.contextOf? target = none := by
  rw [Option.eq_none_iff_forall_ne_some]
  intro place hcontext
  have hmem : .answered .currentCore located ∈ (Operation.enter target).course story :=
    Operation.mem_course_of_topic hlocated rfl (by simp [Operation.traits])
  have hpassed := passed_of_located (hrun.begins hown) hmem
  obtain ⟨found, manager, _, hcourse⟩ :=
    course_of_context hrun hcontext hown (Operation.mem_course.mp hpassed).1
  have hfound : .acted (.engine target .shape) found ∈ (Operation.enter target).course story := by
    simp [hcourse, publishing, arrival, passing]
  have htold : world.engineShape? target = some found :=
    hrun.bears _ (hrun.mem_history hown (Operation.mem_course.mp hfound).1)
  obtain rfl : shape = found := Option.some.inj (hshape.symm.trans htold)
  rw [hcourse] at hmem
  exact hastray (by simpa [publishing, arrival, passing] using hmem)

/-- nor where it was given no manager, -/
theorem absent_of_failed {core : CoreId} {startup : Bool} {cause : Failure}
    (hrun : Runs {} history world flows)
    (hown : (Journal.ofHistory history).own number = .started (.enter target) :: story)
    (hfailed : .answered (.createManager core startup) (.error cause) ∈ story) :
    world.contextOf? target = none := by
  rw [Option.eq_none_iff_forall_ne_some]
  intro place hcontext
  have hmem : .answered (.createManager core startup) (.error cause) ∈
      (Operation.enter target).course story :=
    Operation.mem_course_of_topic hfailed rfl (by simp [Operation.traits])
  obtain ⟨_, _, hentitled⟩ := entitled_of_begins (hrun.begins hown) hmem
  obtain ⟨found, manager, _, hcourse⟩ :=
    course_of_context hrun hcontext hown (Operation.mem_course.mp hentitled.passed).1
  rw [hcourse] at hmem
  simp [publishing, arrival, passing] at hmem

/-- nor while it waits for its manager, -/
theorem absent_of_awaiting {core : CoreId} {startup : Bool} {engine : Engine}
    {next : Except Failure ManagerRef → Program Unit} (hrun : Runs {} history world flows)
    (hengine : world.engineAt? target = some engine)
    (haccounts : coursing.Accounts (.ofHistory history) number
      ⟨.enter target, .ask (.createManager core startup) next⟩) :
    world.contextOf? target = none := by
  rw [Option.eq_none_iff_forall_ne_some]
  intro place hcontext
  obtain ⟨hnone, _, hentitled⟩ := awaited_of_runs hrun hengine haccounts
  obtain ⟨story, hown, _⟩ := haccounts
  rw [hown] at hnone
  have hpassed : .acted (.engine target .enter) false ∈ story := by
    simpa [hown] using hentitled.passed
  obtain ⟨shape, manager, _, hcourse⟩ := course_of_context hrun hcontext hown hpassed
  have hmanagers : managersIn story = [(shape.core, startsUp shape)] := by
    rw [← managersIn_course target story, hcourse]
    rfl
  have hmore : managersIn (.started (.enter target) :: story) = managersIn story := rfl
  rw [hmore, hmanagers] at hnone
  cases hnone

/-- nor where the engine is none that runs threads. -/
theorem absent_of_mode {engine : Engine} (hrun : Runs {} history world flows)
    (hengine : world.engineAt? target = some engine) (hmode : engine.shape.mode ≠ .execution) :
    world.contextOf? target = none := by
  have hnone : engine.context.value? = none := by
    rw [Option.eq_none_iff_forall_ne_some]
    exact fun place hcontext => hmode (present_of_runs hrun hengine hcontext).2.1
  simp [World.contextOf?, hengine, hnone]

end

end Engine

end CoreEngines
