import CoreEngines.Proofs.Admission.Handovers
import CoreEngines.Proofs.Alone
import CoreEngines.Proofs.Entry.Publication

/-!
Resumption.  Whatever has gone wrong before, an admission takes all threads that are staged in its
registry and hands them over; it fails only if its manager does, and while nothing else happens it
comes to its end.
-/

namespace CoreEngines

namespace World

variable {world : World} {thread : Ref .thread} {object : Thread} {target : Ref .registry}
  {registry : Registry} {sched : SchedRef}

/-- The name of a thread, if it has one; no answer where there is no such thread. -/
def nameOf? (world : World) (thread : Ref .thread) : Option (Option SchedRef) :=
  (world.threadAt? thread).map (·.sched)

theorem nameOf?_eq_some :
    world.nameOf? thread = some (some sched) ↔ world.ledger.sched thread = some sched := by
  cases hobject : world.threadAt? thread <;> simp [nameOf?, ledger, hobject]

theorem nameOf?_eq_none (hthread : thread.index < world.ledger.made) :
    world.nameOf? thread = some none ↔ world.ledger.sched thread = none := by
  obtain ⟨object, hobject⟩ : ∃ object, world.threadAt? thread = some object :=
    ⟨_, Array.getElem?_eq_getElem hthread⟩
  simp [nameOf?, ledger, hobject]

theorem perform?_threadId (hobject : world.threadAt? thread = some object) :
    world.perform? (.thread thread .id) = some (object.id, world) := by
  rw [threadAt?] at hobject
  simp [perform?, accessAt?_eq, hobject, Thread.access, setIfInBounds_self hobject]

/-- A thread without a name takes the first that it is given. -/
theorem perform?_bind (hname : world.nameOf? thread = some none) (sched : SchedRef) :
    ∃ later, world.perform? (.thread thread (.bind sched)) = some (true, later) ∧
      later.registries = world.registries ∧ later.held = world.held ∧
        ∀ other, later.nameOf? other =
          if other = thread then some (some sched) else world.nameOf? other := by
  obtain ⟨object, hobject, hsched⟩ := Option.map_eq_some_iff.mp hname
  have hat : world.threads[thread.index]? = some object := hobject
  refine ⟨{ world with
    threads := world.threads.setIfInBounds thread.index { object with sched := some sched } },
    ?_, rfl, rfl, fun other => ?_⟩
  · simp [perform?, accessAt?_eq, hat, Thread.access, hsched]
  · rw [nameOf?, threadAt?]
    split
    case isTrue hsame =>
      rw [hsame, getElem?_setIfInBounds_self hat]
      rfl
    case isFalse hother =>
      rw [getElem?_setIfInBounds_of_ne hother]
      rfl

theorem perform?_registryShape (hregistry : world.registryAt? target = some registry) :
    world.perform? (.registry target .shape) = some (registry.shape, world) := by
  rw [registryAt?] at hregistry
  simp [perform?, accessAt?_eq, hregistry, Registry.access, setIfInBounds_self hregistry]

theorem perform?_peek (hregistry : world.registryAt? target = some registry) :
    world.perform? (.registry target .peek) = some (registry.count, world) := by
  rw [registryAt?] at hregistry
  simp [perform?, accessAt?_eq, hregistry, Registry.access, setIfInBounds_self hregistry]

theorem perform?_detach (hregistry : world.registryAt? target = some registry) :
    ∃ later, world.perform? (.registry target .detach) = some (registry.pending, later) ∧
      later.registryAt? target = some { registry with pending := #[] } ∧
        later.held = world.held ∧ later.threads = world.threads := by
  have hat : world.registries[target.index]? = some registry := hregistry
  refine ⟨{ world with
    registries := world.registries.setIfInBounds target.index { registry with pending := #[] } },
    ?_, ?_, rfl, rfl⟩
  · simp [perform?, accessAt?_eq, hat, Registry.access]
  · exact getElem?_setIfInBounds_self hat _

end World

open Program

section
variable {respond : Respond} {names : Ref .thread → SchedRef} {world : World}

namespace Context

/-- Threads that are handed over while nothing else happens get the names that the manager has for
them. -/
theorem admitEach_alone {manager : ManagerRef} {threads : List (Ref .thread)}
    (hnames : ∀ thread, respond (.schedule manager "" thread) = .ok (names thread))
    (hnodup : threads.Nodup) (hthreads : ∀ thread ∈ threads, world.nameOf? thread = some none) :
    ∃ later, (admitEach manager threads).alone? respond world = some (.ok (), later) ∧
      later.registries = world.registries ∧ later.held = world.held ∧
        ∀ thread, later.nameOf? thread =
          if thread ∈ threads then some (some (names thread)) else world.nameOf? thread := by
  induction threads generalizing world with
  | nil => exact ⟨world, rfl, rfl, rfl, fun thread => by simp⟩
  | cons thread threads ih =>
      obtain ⟨hfirst, hrest⟩ := List.nodup_cons.mp hnodup
      have hname := hthreads thread List.mem_cons_self
      obtain ⟨object, hobject, _⟩ := Option.map_eq_some_iff.mp hname
      obtain ⟨next, hbind, hregistries, hheld, hnamed⟩ := World.perform?_bind hname (names thread)
      have hunnamed : ∀ other ∈ threads, next.nameOf? other = some none := by
        intro other hmem
        rw [hnamed, if_neg (ne_of_mem_of_not_mem hmem hfirst)]
        exact hthreads other (List.mem_cons_of_mem _ hmem)
      obtain ⟨later, halone, hregistries', hheld', hnamed'⟩ := ih hrest hunnamed
      refine ⟨later, ?_, hregistries'.trans hregistries, hheld'.trans hheld, fun other => ?_⟩
      · simp only [admitEach, admittedName, Thread.bind, alone?_bind, alone?_request, hnames,
          alone?_perform, World.perform?_threadId hobject, hbind, alone?_report, alone?_pure,
          Option.map_some, Option.bind_some, if_true, halone]
      · rw [hnamed', hnamed]
        by_cases hsame : other = thread
        · simp [hsame, hfirst]
        · simp [hsame]

/-- An admission that runs while nothing else happens admits all threads that are staged. -/
theorem admitStaged_alone {context : Ref .context} {shape : ContextShape} {registry : Registry}
    (hshape : world.contextShape? context = some shape)
    (hregistry : world.registryAt? shape.registry = some registry)
    (hfree : .roster shape.registry ∉ world.held)
    (hcount : registry.count = 0 → registry.pending = #[])
    (hnodup : registry.pending.toList.Nodup)
    (hthreads : ∀ thread ∈ registry.pending, world.nameOf? thread = some none)
    (hnames : ∀ thread, respond (.schedule shape.manager "" thread) = .ok (names thread)) :
    ∃ later, (admitStaged context).alone? respond world = some (.ok registry.pending.size, later) ∧
      later.registryAt? shape.registry = some { registry with pending := #[] } ∧
        ∀ thread ∈ registry.pending, later.nameOf? thread = some (some (names thread)) := by
  have hpeek := World.perform?_peek hregistry
  by_cases hzero : registry.count = 0
  · have hnone := hcount hzero
    refine ⟨world, ?_, ?_, ?_⟩
    · simp [admitStaged, Registry.takeStaged, World.perform?_contextShape hshape, hpeek, hzero,
        hnone]
    · rw [hregistry, ← hnone]
    · simp [hnone]
  · have hinside : World.registryAt? { world with held := .roster shape.registry :: world.held }
        shape.registry = some registry := hregistry
    obtain ⟨inside, hdetach, hempty, hheld, hkept⟩ := World.perform?_detach hinside
    have htake : (Registry.takeStaged shape.registry).alone? respond world =
        some (.ok registry.pending, { inside with held := world.held }) := by
      have hbody : (perform (.registry shape.registry .detach)).alone? respond
          { world with held := .roster shape.registry :: world.held } =
            some (.ok registry.pending, inside) := by
        rw [alone?_perform, hdetach]
        rfl
      simp only [Registry.takeStaged, Registry.takeStagedLocked, alone?_bind, alone?_perform, hpeek,
        Option.map_some, Option.bind_some, if_neg hzero]
      rw [alone?_locked hfree hbody, hheld, List.erase_cons_head]
    have hunnamed : ∀ thread ∈ registry.pending.toList,
        World.nameOf? { inside with held := world.held } thread = some none := by
      intro thread hthread
      rw [World.nameOf?, World.threadAt?, hkept]
      exact hthreads thread (Array.mem_toList_iff.mp hthread)
    obtain ⟨later, halone, hregistries, _, hnamed⟩ := admitEach_alone hnames hnodup hunnamed
    refine ⟨later, ?_, ?_, ?_⟩
    · by_cases hpending : registry.pending.isEmpty
      · have hpending' : registry.pending = #[] := Array.isEmpty_iff.mp hpending
        rw [hpending'] at halone htake
        cases halone
        simp [admitStaged, World.perform?_contextShape hshape, htake, hpending']
      · simp only [admitStaged, alone?_bind, alone?_perform, World.perform?_contextShape hshape,
          Option.map_some, Option.bind_some, htake, if_neg hpending, halone, alone?_report,
          alone?_pure]
    · rw [World.registryAt?, hregistries]
      exact hempty
    · intro thread hthread
      rw [hnamed, if_pos (Array.mem_toList_iff.mpr hthread)]

end Context

end

namespace Runs

variable {history before after : History} {world : World} {flows : Nat → Flow}
  {target : Ref .registry} {thread : Ref .thread} {number : Nat} {context : Ref .context}

/-- A thread that is staged has no name. -/
theorem unnamed_of_staged (hrun : Runs {} history world flows) (hunforced : Unforced history)
    (hthread : thread ∈ world.ledger.staged target) : world.nameOf? thread = some none := by
  obtain ⟨hsorted, hnames, hcovered⟩ :=
    (hrun.account admitting_obeyed admissions_upholds).2 hunforced
  rw [World.nameOf?_eq_none (hcovered.known (hcovered.listed hthread))]
  by_contra hsome
  obtain ⟨sched, hsched⟩ := Option.ne_none_iff_exists'.mp hsome
  have hhanded : thread ∈ Place.contents world.ledger
      (admitting.standing (.ofHistory history)) (handedIn (history.map Prod.snd)) .handed :=
    (hnames.bound hsched).mem_handed
  have hplace : thread ∈ Place.contents world.ledger
      (admitting.standing (.ofHistory history)) (handedIn (history.map Prod.snd))
        (.staged target) := hthread
  cases hsorted.apart hhanded hplace

/-- While the lock of the roster is free and nothing else happens, an admission comes to its end. -/
theorem admits_alone {shape : ContextShape} {registry : Registry} {respond : Respond}
    {names : Ref .thread → SchedRef} (hrun : Runs {} history world flows)
    (hunforced : Unforced history) (hshape : world.contextShape? context = some shape)
    (hregistry : world.registryAt? shape.registry = some registry)
    (hfree : .roster shape.registry ∉ world.held)
    (hnames : ∀ thread, respond (.schedule shape.manager "" thread) = .ok (names thread)) :
    ∃ later, (Context.admitStaged context).alone? respond world =
        some (.ok registry.pending.size, later) ∧
      later.registryAt? shape.registry = some { registry with pending := #[] } ∧
        ∀ thread ∈ registry.pending, later.nameOf? thread = some (some (names thread)) := by
  have hstaged : world.ledger.staged shape.registry = registry.pending.toList := by
    simp [World.ledger, hregistry]
  have hroster := World.ledger_roster hregistry
  have htaken := hrun.taken shape.registry
  have hnodup := hrun.roster_nodup shape.registry
  rw [← htaken] at hnodup
  refine Context.admitStaged_alone hshape hregistry hfree ?_ ?_ ?_ hnames
  · intro hzero
    obtain ⟨_, hkept⟩ := hrun.account keeping_obeyed kept_upholds
    have hcount : registry.count = registry.roster.size := by
      simpa [World.tally, hregistry] using hkept.published hfree
    have hnone : registry.roster.toList = [] := by
      rw [← List.length_eq_zero_iff, Array.length_toList, ← hcount, hzero]
    rw [hroster, hstaged, hnone] at htaken
    exact Array.toList_inj.mp (List.append_eq_nil_iff.mp htaken).2
  · rw [← hstaged]
    exact hnodup.of_append_right
  · intro thread hthread
    have hmem : thread ∈ world.ledger.staged shape.registry := by
      rw [hstaged]
      exact Array.mem_toList_iff.mpr hthread
    exact hrun.unnamed_of_staged hunforced hmem

/-- An admission that has returned was an intake. -/
theorem intake_of_finished {story : List Happening} {result : Except Failure Nat}
    (hrun : Runs {} history world flows)
    (hown : (Journal.ofHistory history).own number = .started (.admitStaged context) :: story)
    (hfinished : .finished (.admitStaged context) result ∈ story) :
    ∃ shape threads steps, story = steps ++ [.finished (.admitStaged context) result] ∧
      world.contextShape? context = some shape ∧
        Context.Intake context shape threads steps result := by
  obtain ⟨steps, rfl, _⟩ := hrun.coursing.returned hown hfinished
  rcases hrun.reaches hown with ⟨rest, hreaches⟩ | ⟨steps', result', hsteps, hreaches⟩
  · obtain ⟨middle, _, hlast⟩ := Program.reaches_append.mp hreaches
    obtain ⟨_, hgoes, _⟩ := Program.reaches_cons.mp hlast
    cases hgoes
  · obtain ⟨rfl, hlast⟩ := List.append_inj' hsteps rfl
    cases hlast
    obtain ⟨shape, threads, hintake⟩ :=
      Context.intake_of_tells ((Context.admitStaged_straight context).tells hreaches)
    refine ⟨shape, threads, steps, rfl, ?_, hintake⟩
    apply hrun.contextShape_of_read
    exact hrun.mem_history hown (List.mem_append_left _ hintake.shape_mem)

/-- Whoever sees that a registry has had threads comes after one of them was published. -/
theorem published_of_peek {count : Nat} (hrun : Runs {} history world flows)
    (hmem : .acted (.registry target .peek) count ∈ history.map Prod.snd) (hcount : count ≠ 0) :
    ∃ length : Nat, .acted (.registry target (.publish length)) () ∈ history.map Prod.snd := by
  obtain ⟨⟨index, _⟩, hentry, rfl⟩ := List.mem_map.mp hmem
  obtain ⟨before, after, rfl⟩ := List.append_of_mem hentry
  obtain ⟨past, later, _, hbefore, hafter⟩ := hrun.moment
  have hlast := hbefore.count target
  rw [World.tally_of_peek hafter] at hlast
  cases hpublished : ((before.map Prod.snd).filterMap (·.published? target)).getLast? with
  | none =>
      rw [hpublished] at hlast
      exact absurd hlast hcount
  | some length =>
      obtain ⟨happening, hmem, hpublishes⟩ :=
        List.mem_filterMap.mp (List.mem_of_getLast? hpublished)
      obtain rfl := Happening.published?_eq_some.mp hpublishes
      refine ⟨length, ?_⟩
      rw [List.map_append]
      exact List.mem_append_left _ hmem

/-- From then on everybody sees it. -/
theorem peek_ne_zero {length count : Nat} {story : List Happening} {happening : Happening}
    (hrun : Runs {} (before ++ after) world flows)
    (hpublished : .acted (.registry target (.publish length)) () ∈ before.map Prod.snd)
    (hnumber : (Journal.ofHistory before).started ≤ number)
    (hown : (Journal.ofHistory (before ++ after)).own number = happening :: story)
    (hmem : .acted (.registry target .peek) count ∈ story) : count ≠ 0 := by
  rintro rfl
  obtain ⟨early, late, rfl⟩ := List.append_of_mem hmem
  rw [← List.cons_append] at hown
  obtain ⟨earlier, place, rest, hhistory, hearly, _⟩ := hrun.moment_of_own hown
  obtain ⟨gap, rfl⟩ := hrun.prefix_of_unstarted hnumber hhistory hearly
  rw [hhistory] at hrun
  obtain ⟨past, later, _, hbefore, hafter⟩ := hrun.moment
  refine hbefore.not_published (World.tally_of_peek hafter) length ?_
  rw [List.map_append]
  exact List.mem_append_left _ hpublished

end Runs

/-- An operation has drained all that was staged in a registry, handed it over and had it bound. -/
structure Registry.Admitted (target : Ref .registry) (number : Nat) (story : List Happening)
    (world : World) (history : History) (threads : List (Ref .thread)) : Prop where
  /-- When it drained the registry, it took all threads that nobody had taken. -/
  drained : ∃ before place batch after,
    history = before ++ (place, .acted (.registry target .detach) batch) :: after ∧
      (Journal.ofHistory before).Gains
          (Journal.ofHistory (before ++ [(place, .acted (.registry target .detach) batch)])) number
          (.acted (.registry target .detach) batch) ∧
        threads = batch.toList ∧
          takenIn target (before.map Prod.snd) ++ threads = enrolledIn target (before.map Prod.snd)
  handed : handedIn story = threads
  named : ∀ thread ∈ threads, ∃ manager sched,
    .answered (.schedule manager "" thread) (.ok sched) ∈ story ∧
      world.nameOf? thread = some (some sched)

/-- What an intake answers is how many threads it has found, and all of them were handed over. -/
theorem Context.Intake.counted {context : Ref .context} {shape : ContextShape}
    {threads : List (Ref .thread)} {story : List Happening} {count : Nat}
    (hintake : Intake context shape threads story (.ok count)) :
    count = threads.length ∧ ∃ looking handing late,
      Registry.Looks shape.registry looking threads ∧ HandsOver shape.manager threads handing ∧
        story = .acted (.context context .shape) shape :: (looking ++ (handing ++ late)) ∧
          handedIn late = [] := by
  cases hintake with
  | @idle looking hlooks => exact ⟨rfl, looking, [], [], hlooks, .nil, by simp, rfl⟩
  | @whole _ looking handing hlooks hhandsOver =>
      exact ⟨rfl, looking, handing, _, hlooks, hhandsOver, rfl, rfl⟩

namespace Runs

variable {history before after : History} {world : World} {flows : Nat → Flow}
  {target : Ref .registry} {number : Nat}

/-- An operation drains a registry of all that nobody has taken. -/
theorem drained_all {made rest : List Happening} {batch : Array (Ref .thread)}
    (hrun : Runs {} history world flows)
    (hown : (Journal.ofHistory history).own number =
      made ++ .acted (.registry target .detach) batch :: rest) :
    ∃ before place after,
      history = before ++ (place, .acted (.registry target .detach) batch) :: after ∧
        (Journal.ofHistory before).own number = made ∧
          (Journal.ofHistory before).Gains
              (Journal.ofHistory (before ++ [(place, .acted (.registry target .detach) batch)]))
              number (.acted (.registry target .detach) batch) ∧
            takenIn target (before.map Prod.snd) ++ batch.toList =
              enrolledIn target (before.map Prod.snd) := by
  obtain ⟨before, place, after, rfl, hmade, hgains⟩ := hrun.moment_of_own hown
  refine ⟨before, place, after, rfl, hmade, hgains, ?_⟩
  obtain ⟨past, later, _, hbefore, hafter⟩ := hrun.moment
  have hanswers : batch.toList = past.ledger.staged target := (World.ledger_after hafter).1
  rw [hanswers, hbefore.taken, hbefore.roster]

/-- Once a thread was published, every admission that returns a count has admitted so many. -/
theorem admitted_of_finished {count length : Nat} {context : Ref .context} {shape : ContextShape}
    {story : List Happening} (hrun : Runs {} (before ++ after) world flows)
    (hpublished : .acted (.registry shape.registry (.publish length)) () ∈ before.map Prod.snd)
    (hnumber : (Journal.ofHistory before).started ≤ number)
    (hshape : world.contextShape? context = some shape)
    (hown : (Journal.ofHistory (before ++ after)).own number =
      .started (.admitStaged context) :: story)
    (hfinished : .finished (.admitStaged context) (.ok count) ∈ story) :
    ∃ threads, count = threads.length ∧
      Registry.Admitted shape.registry number story world (before ++ after) threads := by
  obtain ⟨seen, threads, steps, rfl, hseen, hintake⟩ := hrun.intake_of_finished hown hfinished
  obtain rfl := Option.some.inj (hseen.symm.trans hshape)
  obtain ⟨hcount, looking, handing, late, hlooks, hhandsOver, rfl, hlate⟩ := hintake.counted
  refine ⟨threads, hcount, ?_⟩
  cases hlooks with
  | unused =>
      exact absurd rfl (hrun.peek_ne_zero hpublished hnumber hown (by simp))
  | @drained seen' hseen' batch =>
      have hdrains : (Journal.ofHistory (before ++ after)).own number =
          [Happening.started (.admitStaged context), .acted (.context context .shape) seen,
            .acted (.registry seen.registry .peek) seen',
            .acted (.acquire (.roster seen.registry)) ()] ++
          .acted (.registry seen.registry .detach) batch :: (.acted (.release
            (.roster seen.registry)) () :: (handing ++ late) ++
              [.finished (.admitStaged context) (.ok count)]) := hown
      obtain ⟨earlier, place, rest, hhistory, _, hgains, htaken⟩ := hrun.drained_all hdrains
      refine ⟨⟨earlier, place, batch, rest, hhistory, hgains, rfl, htaken⟩, ?_, ?_⟩
      · rw [← hhandsOver.hands.1]
        simp only [handedIn] at hlate ⊢
        simp [hlate, Happening.hands]
      · intro thread hthread
        obtain ⟨sched, hanswer, hbind⟩ := hhandsOver.bound hthread
        refine ⟨seen.manager, sched, by simp [hanswer], ?_⟩
        rw [World.nameOf?_eq_some]
        apply hrun.sched_of_bind
        exact hrun.mem_history hown (by simp [hbind])

/-- An admission fails only when its manager does. -/
theorem spoiled_of_finished {context : Ref .context} {story : List Happening} {failure : Failure}
    (hrun : Runs {} history world flows) (hunforced : Unforced history)
    (hown : (Journal.ofHistory history).own number = .started (.admitStaged context) :: story)
    (hfinished : .finished (.admitStaged context) (.error failure) ∈ story) :
    ∃ happening ∈ story, happening.spoils? = some failure := by
  obtain ⟨_, hnames, _⟩ := (hrun.account admitting_obeyed admissions_upholds).2 hunforced
  have hproper : ∀ happening ∈ story, happening.Proper := by
    intro happening hmem
    obtain ⟨entry, hentry, rfl⟩ := List.mem_map.mp (hrun.mem_history hown hmem)
    exact hnames.proper entry hentry
  obtain ⟨shape, threads, steps, rfl, _, hintake⟩ := hrun.intake_of_finished hown hfinished
  generalize hresult : (Except.error failure : Except Failure Nat) = result at hintake
  cases hintake with
  | idle => cases hresult
  | whole => cases hresult
  | broken _ hhanding =>
      cases hresult
      generalize hfails : (Except.error failure : Except Failure Unit) = outcome at hhanding
      cases hhanding with
      | all => cases hfails
      | @spoiled admitted rest thread =>
          cases hfails
          exact ⟨.answered (.schedule shape.manager "" thread) (.error failure), by simp, rfl⟩
      | @refused admitted rest thread _ sched =>
          have hrefused := hproper (.acted (.thread thread (.bind sched)) false) (by simp)
          cases hrefused

end Runs

/-- The answers of a manager that creates every thread, and knows these names for them. -/
def Respond.naming (names : Ref .thread → SchedRef) : Respond
  | .schedule _ _ thread => .ok (names thread)
  | _ => .error .aborted

theorem Respond.naming_schedule (names : Ref .thread → SchedRef) (manager : ManagerRef)
    (thread : Ref .thread) :
    naming names (.schedule manager "" thread) = .ok (names thread) :=
  rfl

/-- While the lock of the roster is free and nothing else happens, a flow that may start an
admission can bring it to its end, and every thread that was staged gets its name. -/
theorem Machine.admission_completes {machine : Machine} {history : History} {place : Nat}
    {flow : Flow} {context : Ref .context} {shape : ContextShape} {registry : Registry}
    (names : Ref .thread → SchedRef) (hrun : Runs {} history machine.world machine.flow)
    (hunforced : Unforced history) (hflow : machine.flows[place]? = some flow)
    (hasking : flow.all (·.isAsking))
    (hshape : machine.world.contextShape? context = some shape)
    (hregistry : machine.world.registryAt? shape.registry = some registry)
    (hfree : .roster shape.registry ∉ machine.world.held) :
    ∃ moves later steps, machine.run? moves = some (⟨later, machine.flows⟩,
        (Happening.started (.admitStaged context) ::
          (steps ++ [.finished (.admitStaged context) (.ok registry.pending.size)])).map
            fun happening => (place, happening)) ∧
      later.registryAt? shape.registry = some { registry with pending := #[] } ∧
        ∀ thread ∈ registry.pending, later.nameOf? thread = some (some (names thread)) := by
  obtain ⟨later, halone, hempty, hnamed⟩ :=
    hrun.admits_alone hunforced hshape hregistry hfree (Respond.naming_schedule names shape.manager)
  have hprogram : (Operation.admitStaged context).program.alone? (.naming names) machine.world =
      some (.ok registry.pending.size, later) := halone
  obtain ⟨moves, steps, hmoves, _⟩ := Flow.run?_operation flow hasking hprogram
  exact ⟨_, later, steps, Machine.run?_flow_back hflow hmoves, hempty, hnamed⟩

end CoreEngines
