import CoreEngines.Proofs.Conduct.Sessions

/-!
Managers and their threads.  A manager gets its threads from the admissions of its context alone,
and the context has taken them from its registry before.  So a manager that says truthfully whether
it has threads tells whether its context has ever found any.
-/

namespace CoreEngines

def Happening.gives (manager : ManagerRef) : Happening → Bool
  | .answered (.schedule other _ _) (.ok _) => other = manager
  | _ => false

def Happening.says? (manager : ManagerRef) : Happening → Option Bool
  | .answered (.hasThreads other) (.ok ready) => if other = manager then some ready else none
  | _ => none

/-- A manager says that it has threads if it was given one before, and only then. -/
def ManagerRef.Truthful (manager : ManagerRef) (history : History) : Prop :=
  ∀ place : Fin history.length, ∀ ready ∈ history[place].2.says? manager,
    ready = (history.take place).any (·.2.gives manager)

instance (manager : ManagerRef) (history : History) : Decidable (manager.Truthful history) :=
  inferInstanceAs (Decidable (∀ _ : Fin history.length, _))

/-- No two contexts have one manager. -/
def World.Apart (world : World) : Prop :=
  (world.contexts.toList.map (·.shape.manager)).Nodup

instance (world : World) : Decidable world.Apart :=
  inferInstanceAs (Decidable (List.Nodup _))

theorem ManagerRef.Truthful.said {manager : ManagerRef} {before after : History} {index : Nat}
    {ready : Bool}
    (htruthful : manager.Truthful
      (before ++ (index, .answered (.hasThreads manager) (.ok ready)) :: after)) :
    ready = before.any (·.2.gives manager) := by
  have hinside : before.length <
      (before ++ (index, .answered (.hasThreads manager) (.ok ready)) :: after).length := by
    simp
  have hsaid := htruthful ⟨before.length, hinside⟩ ready
  simpa [Happening.says?] using hsaid

theorem World.Apart.context_eq {world : World} {place other : Ref .context}
    {shape shape' : ContextShape} (hapart : world.Apart)
    (hplace : world.contextShape? place = some shape)
    (hother : world.contextShape? other = some shape') (hmanager : shape'.manager = shape.manager) :
    other = place := by
  have hmanagers : ∀ {place : Ref .context} {shape : ContextShape},
      world.contextShape? place = some shape →
        (world.contexts.toList.map (·.shape.manager))[place.index]? = some shape.manager := by
    intro place shape hplace
    obtain ⟨context, hcontext, rfl⟩ := Option.map_eq_some_iff.mp hplace
    rw [List.getElem?_map, Array.getElem?_toList]
    exact congrArg (Option.map _) hcontext
  have hmanaged := hmanagers hother
  obtain ⟨hinside, _⟩ := List.getElem?_eq_some_iff.mp hmanaged
  rw [hmanager, ← hmanagers hplace] at hmanaged
  exact congrArg Ref.mk ((List.getElem?_inj hinside hapart).mp hmanaged)

section
variable {manager : ManagerRef} {threads : List (Ref .thread)} {story : List Happening}

namespace Context

/-- Only threads of the batch are handed over, and only to the manager. -/
theorem Handing.calls {result : Except Failure Unit}
    (hhanding : Handing manager threads story result) :
    ∀ callback ∈ callsIn story, ∃ thread ∈ threads, callback = .schedule manager "" thread := by
  have hhandedOver : ∀ {admitted made}, HandsOver manager admitted made →
      ∀ callback ∈ callsIn made, ∃ thread ∈ admitted, callback = .schedule manager "" thread := by
    intro admitted made hhandsOver callback hmem
    rw [(hhandsOver.told ⟨0⟩).1] at hmem
    obtain ⟨thread, hthread, rfl⟩ := List.mem_map.mp hmem
    exact ⟨thread, hthread, rfl⟩
  -- Of a batch that is cut off, the threads up to the one that failed were handed over.
  have hcut : ∀ {admitted rest : List (Ref .thread)} {thread made last},
      HandsOver manager admitted made → callsIn last = [.schedule manager "" thread] →
        ∀ callback ∈ callsIn (made ++ last), ∃ other ∈ admitted ++ thread :: rest,
          callback = .schedule manager "" other := by
    intro admitted rest thread made last hhandsOver hlast callback hmem
    rw [callsIn_append, hlast] at hmem
    rcases List.mem_append.mp hmem with hmem | hmem
    · obtain ⟨other, hother, rfl⟩ := hhandedOver hhandsOver callback hmem
      exact ⟨other, List.mem_append_left _ hother, rfl⟩
    · exact ⟨thread, by simp, List.mem_singleton.mp hmem⟩
  cases hhanding with
  | all hhandsOver => exact hhandedOver hhandsOver
  | spoiled failure hhandsOver => exact hcut hhandsOver rfl
  | refused sched id seen hhandsOver => exact hcut hhandsOver rfl

/-- An admission looks at its registry, and then hands over nothing but what it has found. -/
theorem Intake.looked {context : Ref .context} {shape : ContextShape}
    {result : Except Failure Nat} (hintake : Intake context shape threads story result) :
    ∃ looking rest, Registry.Looks shape.registry looking threads ∧
      story = (.acted (.context context .shape) shape :: looking) ++ rest ∧
        ∀ callback ∈ callsIn rest, ∃ thread ∈ threads,
          callback = .schedule shape.manager "" thread := by
  cases hintake with
  | @idle looking hlooks => exact ⟨looking, [], hlooks, (List.append_nil _).symm, by simp [callsIn]⟩
  | @whole _ looking handing hlooks hhandsOver =>
      refine ⟨looking, _, hlooks, rfl, ?_⟩
      rw [callsIn_append]
      simpa [callsIn, Happening.call?] using (Handing.all hhandsOver).calls
  | @broken _ looking handing _ hlooks hhanding =>
      exact ⟨looking, handing, hlooks, rfl, hhanding.calls⟩

/-- A thread that an admission hands over was taken from the registry of the context before. -/
theorem Intake.schedule {context : Ref .context} {shape : ContextShape} {late more : List Happening}
    {result : Except Failure Nat} {other : ManagerRef} {name : String} {thread : Ref .thread}
    {answer : Except Failure SchedRef}
    (hintake : Intake context shape threads
      (late ++ .answered (.schedule other name thread) answer :: more) result) :
    .acted (.context context .shape) shape ∈ late ∧ other = shape.manager ∧
      thread ∈ takenIn shape.registry late := by
  obtain ⟨looking, rest, hlooks, hstory, hcalls⟩ := hintake.looked
  have hquiet : .schedule other name thread ∉
      callsIn (.acted (.context context .shape) shape :: looking) := by
    rw [← List.singleton_append, callsIn_append, hlooks.told.1]
    simp [callsIn, Happening.call?]
  obtain ⟨handed, rfl, rfl⟩ : ∃ handed,
      late = (.acted (.context context .shape) shape :: looking) ++ handed ∧
        rest = handed ++ .answered (.schedule other name thread) answer :: more := by
    rcases List.append_eq_append_iff.mp hstory with ⟨handed, hlooking, hmore⟩ | hlater
    · cases handed with
      | nil => exact ⟨[], by simpa using hlooking.symm, hmore.symm⟩
      | cons first handed =>
          obtain rfl := (List.cons.inj hmore).1
          refine absurd ?_ hquiet
          rw [hlooking]
          simp [callsIn, Happening.call?, Callback.isCall]
    · exact hlater
  obtain ⟨given, hgiven, hsame⟩ := hcalls (.schedule other name thread)
    (by simp [callsIn, Happening.call?, Callback.isCall])
  cases hsame
  refine ⟨by simp, rfl, ?_⟩
  rw [takenIn_append]
  refine List.mem_append_left _ ?_
  rw [← List.singleton_append, takenIn_append, takenIn_eq _ looking, hlooks.told.2.2]
  exact List.mem_append_right _ (by simpa using hgiven)

end Context

end

namespace Runs

variable {history before after : History} {world : World} {flows : Nat → Flow} {number : Nat}

/-- Whoever hands a thread to a manager has looked at a context that has this manager, and has taken
the thread from its registry. -/
theorem taken_of_schedule {operation : Operation} {made after : List Happening}
    {manager : ManagerRef} {name : String} {thread : Ref .thread}
    {answer : Except Failure SchedRef} (hrun : Runs {} history world flows)
    (hown : (Journal.ofHistory history).own number =
      .started operation :: (made ++ .answered (.schedule manager name thread) answer :: after)) :
    ∃ (context : Ref .context) (shape : ContextShape),
      .acted (.context context .shape) shape ∈ made ∧ manager = shape.manager ∧
        thread ∈ takenIn shape.registry made := by
  obtain ⟨early, context, late, left, rfl, hreaches⟩ := hrun.intake_of_schedules hown rfl
  obtain ⟨hstraight, htells⟩ := (Context.admitStaged_straight context).reaches hreaches
  obtain ⟨more, result, hmore⟩ := hstraight.told
  obtain ⟨shape, threads, hintake⟩ := Context.intake_of_tells (htells more result hmore)
  rw [← List.append_cons] at hintake
  obtain ⟨hread, hmanager, hthread⟩ := hintake.schedule
  refine ⟨context, shape, List.mem_append_right _ hread, hmanager, ?_⟩
  rw [takenIn_append]
  exact List.mem_append_right _ hthread

/-- A manager that was given a thread has a context for whose registry somebody has taken one. -/
theorem taken_of_gives {place : Ref .context} {shape : ContextShape}
    (hrun : Runs {} (before ++ after) world flows) (hapart : world.Apart)
    (hshape : world.contextShape? place = some shape)
    (hgives : before.any (·.2.gives shape.manager)) :
    ∃ number, takenIn shape.registry ((Journal.ofHistory before).own number) ≠ [] := by
  obtain ⟨⟨index, happening⟩, hentry, hgives⟩ := List.any_eq_true.mp hgives
  obtain ⟨_, _, hbefore⟩ := hrun.beginning
  obtain ⟨number, hmem⟩ := hbefore.doer_of_mem (List.mem_map_of_mem hentry)
  simp only at hmem hgives
  unfold Happening.gives at hgives
  split at hgives
  · next manager name thread sched =>
    obtain rfl := of_decide_eq_true hgives
    obtain hnone | ⟨operation, story, hown⟩ := hbefore.own_cases number
    · rw [hnone] at hmem
      cases hmem
    · have hstory : .answered (.schedule shape.manager name thread) (.ok sched) ∈ story := by
        simpa [hown] using hmem
      obtain ⟨made, rest, rfl⟩ := List.append_of_mem hstory
      obtain ⟨context, other, hread, hmanager, htaken⟩ := hbefore.taken_of_schedule hown
      have hother : world.contextShape? context = some other := by
        apply hrun.contextShape_of_read
        rw [List.map_append]
        exact List.mem_append_left _
          (hbefore.mem_history hown (List.mem_append_left _ hread))
      obtain rfl := hapart.context_eq hshape hother hmanager.symm
      obtain rfl := Option.some.inj (hother.symm.trans hshape)
      refine ⟨number, List.ne_nil_of_mem (a := thread) ?_⟩
      rw [hown, ← List.cons_append, takenIn_append, ← List.singleton_append, takenIn_append]
      exact List.mem_append_left _ (List.mem_append_right _ htaken)
  · cases hgives

end Runs

end CoreEngines
