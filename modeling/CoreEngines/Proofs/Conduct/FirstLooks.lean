import CoreEngines.Proofs.Conduct.Managers

/-!
First looks.  Whoever runs a context looks for staged threads once before it asks the manager.
While nobody else takes threads from the registry, a truthful manager has threads exactly when this
look has found some, and that is so exactly when a thread had been created before.
-/

namespace CoreEngines

open Program

namespace Context

variable {context : Ref .context} {shape : ContextShape} {threads : List (Ref .thread)}
  {story : List Happening} {failure : Failure}

/-- While no callback fails, an admission fails only on a thread that has a name already. -/
theorem Intake.refused (hintake : Intake context shape threads story (.error failure))
    (hcalm : ∀ happening ∈ story, happening.fails = false) :
    threads ≠ [] ∧ ∃ id, failure = .violation (.admittedTwice id) := by
  generalize hresult : (Except.error failure : Except Failure Nat) = result at hintake
  cases hintake with
  | idle => cases hresult
  | whole => cases hresult
  | broken _ hhanding =>
      cases hresult
      generalize hfails : (Except.error failure : Except Failure Unit) = outcome at hhanding
      cases hhanding with
      | all => cases hfails
      | @spoiled admitted rest thread made =>
          cases hfails
          have hspoiled := hcalm (.answered (.schedule shape.manager "" thread) (.error failure))
            (by simp)
          cases hspoiled
      | refused sched id seen =>
          cases hfails
          exact ⟨by simp, seen, rfl⟩

/-- A round of the loop that fails has failed in its admission, or goes on to a loop that fails. -/
theorem loopStep_fails
    (hreaches : (loopStep context).Reaches story (.done (.error failure)))
    (hcalm : ∀ happening ∈ story, happening.fails = false) :
    (∃ id, failure = .violation (.admittedTwice id)) ∨
      ∃ early late, story = early ++ late ∧
        (invoke (.runLoop context)).Reaches late (.done (.error failure)) := by
  obtain ⟨shape, late, rfl, hasks⟩ := reaches_perform_bind_done hreaches
  rcases reaches_request_bind_done hasks with ⟨quantum, late, rfl, hrest⟩ | ⟨cause, rfl, _⟩
  · have hquiet : ∀ happening ∈ late, happening.fails = false :=
      fun happening hmem => hcalm happening (by simp [hmem])
    cases quantum with
    | exit => cases (reaches_done.mp hrest).2
    | proceed =>
        dsimp only at hrest
        split at hrest
        · exact Or.inr ⟨[_, _], late, rfl, hrest⟩
        · rcases reaches_bind_done hrest with
            ⟨made, _, late, _, hlate, rfl⟩ | ⟨_, hfails, hfailure⟩
          · exact Or.inr ⟨_ :: _ :: made, late, rfl, hlate⟩
          · cases hfailure
            obtain ⟨shape, threads, hintake⟩ :=
              intake_of_tells ((admitStaged_straight context).tells hfails)
            exact Or.inl (hintake.refused hquiet).2
  · have hfails := hcalm (.answered (.runQuantum shape.manager) (.error cause)) (by simp)
    cases hfails

/-- While no callback fails, a loop fails only on a thread that has a name already.  The induction
is on the length of the story, since each round calls the next one. -/
theorem runLoop_fails
    (hreaches : (invoke (.runLoop context)).Reaches story (.done (.error failure)))
    (hcalm : ∀ happening ∈ story, happening.fails = false) :
    ∃ id, failure = .violation (.admittedTwice id) := by
  induction hlength : story.length using Nat.strongRecOn generalizing story with
  | _ length ih =>
      cases story with
      | nil => cases reaches_nil.mp hreaches
      | cons first story =>
          obtain ⟨_, hgoes, hcode⟩ := reaches_cons.mp hreaches
          cases hgoes
          rw [andThen_done] at hcode
          have hcalm := (List.forall_mem_cons.mp hcalm).2
          rcases loopStep_fails hcode hcalm with hrefused | ⟨early, late, rfl, hlate⟩
          · exact hrefused
          · refine ih late.length ?_ hlate (List.forall_mem_append.mp hcalm).2 rfl
            simp at hlength
            omega

/-- How a run of a context has ended during which no callback has failed: its admission has failed
on a thread that has a name already, or its manager was asked, and had no threads just if the run
says so. -/
theorem ended_of_reaches {result : Except Failure Unit}
    (hshape : ∀ seen, .acted (.context context .shape) seen ∈ story → seen = shape)
    (hreaches : (run context).Reaches story (.done result))
    (hcalm : ∀ happening ∈ story, happening.fails = false) :
    ∃ first intake late outcome,
      Intake context shape first intake outcome ∧ story = intake ++ late ∧
      ((∃ ready, ready ∈ readyIn story ∧
          (result = .error (.violation (.nothingToRun shape.core)) ↔ ready = false)) ∨
        first ≠ [] ∧ result ≠ .error (.violation (.nothingToRun shape.core))) := by
  rcases reaches_bind_done hreaches with ⟨intake, admitted, late, hadmits, hlate, rfl⟩ |
      ⟨failure, hfails, rfl⟩
  · obtain ⟨first, hintake⟩ := intake_of_reaches
      (fun seen hread => hshape seen (List.mem_append_left _ hread)) hadmits
    refine ⟨first, intake, late, .ok admitted, hintake, rfl, Or.inl ?_⟩
    have hcalm := (List.forall_mem_append.mp hcalm).2
    obtain ⟨seen, late, rfl, hasks⟩ := reaches_perform_bind_done hlate
    obtain rfl := hshape seen (by simp)
    rcases reaches_request_bind_done hasks with ⟨ready, late, rfl, hrest⟩ | ⟨cause, rfl, _⟩
    · refine ⟨ready, List.mem_filterMap.mpr
        ⟨.answered (.hasThreads seen.manager) (.ok ready), by simp, rfl⟩, ?_⟩
      cases ready with
      | false =>
          cases (reaches_done.mp hrest).2
          exact iff_of_true rfl rfl
      | true =>
          refine iff_of_false ?_ Bool.noConfusion
          rintro rfl
          obtain ⟨late, rfl, hloop⟩ := reaches_report_bind_done hrest
          rcases reaches_bind_done hloop with ⟨laps, _, last, _, hlast, rfl⟩ | ⟨_, hfails, hfailure⟩
          · obtain ⟨_, _, hdone⟩ := reaches_report_bind_done hlast
            cases (reaches_done.mp hdone).2
          · obtain ⟨id, rfl⟩ := runLoop_fails hfails fun happening hmem =>
              hcalm happening (by simp [hmem])
            cases hfailure
    · have hfails := hcalm (.answered (.hasThreads seen.manager) (.error cause)) (by simp)
      cases hfails
  · obtain ⟨seen, first, hintake⟩ :=
      intake_of_tells ((admitStaged_straight context).tells hfails)
    obtain rfl := hshape seen hintake.shape_mem
    obtain ⟨hfirst, id, rfl⟩ := hintake.refused hcalm
    exact ⟨first, story, [], _, hintake, (List.append_nil _).symm,
      Or.inr ⟨hfirst, fun hsame => by cases hsame⟩⟩

end Context

namespace Registry

/-- Until an operation has heard from a manager whether there are threads, nobody else has taken
threads from the registry. -/
def KeptFor (target : Ref .registry) (number : Nat) (history : History) : Prop :=
  ∀ place : Fin (Journal.ofHistory history).entries.length,
    (Journal.ofHistory history).entries[place].1 = number →
      (Journal.ofHistory history).entries[place].2.ready?.isSome →
        ∀ entry ∈ (Journal.ofHistory history).entries.take place,
          entry.2.takesFrom target → entry.1 = number

instance (target : Ref .registry) (number : Nat) (history : History) :
    Decidable (KeptFor target number history) :=
  inferInstanceAs (Decidable (∀ _ : Fin _, _))

variable {target : Ref .registry} {history before after : History} {world : World}
  {flows : Nat → Flow} {index number other : Nat} {happening : Happening}

theorem KeptFor.untaken (hkept : KeptFor target number (before ++ (index, happening) :: after))
    (hgains : (Journal.ofHistory before).Gains
      (Journal.ofHistory (before ++ [(index, happening)])) number happening)
    (hready : happening.ready?.isSome) (hother : other ≠ number) :
    takenIn target ((Journal.ofHistory before).own other) = [] := by
  obtain ⟨rest, hentries⟩ := Journal.entries_append (before ++ [(index, happening)]) after
  rw [← List.append_cons, hgains] at hentries
  have hinside : (Journal.ofHistory before).entries.length <
      (Journal.ofHistory (before ++ (index, happening) :: after)).entries.length := by
    simp [hentries]
  have honly := hkept ⟨_, hinside⟩ (by simp [hentries]) (by simpa [hentries] using hready)
  simp only [hentries, List.append_assoc, List.take_left] at honly
  refine List.flatMap_eq_nil_iff.mpr fun told hmem => ?_
  by_contra htaken
  obtain ⟨⟨teller, _⟩, hentry, hsome⟩ := List.mem_filterMap.mp hmem
  obtain ⟨rfl, rfl⟩ : teller = other ∧ _ = told := by simpa using hsome
  exact hother (honly _ hentry (Happening.takesFrom_iff.mpr htaken))

namespace Look

/-- No other flow is inside the section of a creator. -/
def Undisturbed (look : Look target number history) : Prop :=
  ∀ other ≠ look.place, ∀ creator ∈ (Journal.ofHistory look.before).running other,
    .roster target ∉ locksIn ((Journal.ofHistory look.before).own creator)

variable (look : Look target number history)

theorem enrolled_of_found (hrun : Runs {} history world flows)
    (hnone : enrolledIn target (look.before.map Prod.snd) = []) : look.found = [] := by
  have hfound := look.found_append_missed hrun
  rw [stagedIn, hnone, List.drop_nil] at hfound
  exact (List.append_eq_nil_iff.mp hfound).1

/-- When an operation heard from its manager, nothing had been taken before it has looked first. -/
theorem untaken_before (hrun : Runs {} history world flows) (hkept : KeptFor target number history)
    (hfirst : looksIn target ((Journal.ofHistory look.before).own number) = [])
    {made rest : List Happening}
    (hown : (Journal.ofHistory history).own number = made ++ happening :: rest)
    (hready : happening.ready?.isSome) (hlooked : looksIn target made ≠ []) :
    takenIn target (look.before.map Prod.snd) = [] := by
  obtain ⟨before, index, after, hmoment, hmade, hgains⟩ := hrun.moment_of_own hown
  have hearly : look.before <+: history := ⟨_, look.moment.symm⟩
  have hlate : before <+: history := ⟨_, hmoment.symm⟩
  rcases List.prefix_or_prefix_of_prefix hearly hlate with ⟨gap, hgap⟩ | ⟨gap, hgap⟩
  · have hbefore : Runs {} (look.before ++ _) world flows := look.moment ▸ hrun
    obtain ⟨_, _, hbefore⟩ := hbefore.beginning
    rw [takenIn, ← hbefore.flatMap_entries]
    refine List.flatMap_eq_nil_iff.mpr fun entry hentry => ?_
    have hmem : entry.2 ∈ (Journal.ofHistory look.before).own entry.1 :=
      List.mem_filterMap.mpr ⟨entry, hentry, if_pos rfl⟩
    have hnone : takenIn target ((Journal.ofHistory look.before).own entry.1) = [] := by
      by_cases hnumber : entry.1 = number
      · rw [hnumber, takenIn_eq, hfirst]
        rfl
      · rw [hmoment] at hkept
        have huntaken := hkept.untaken hgains hready hnumber
        obtain ⟨rest, hrest⟩ := Journal.own_continues look.before gap entry.1
        rw [hgap] at hrest
        rw [← hrest, takenIn_append] at huntaken
        exact (List.append_eq_nil_iff.mp huntaken).1
    exact List.flatMap_eq_nil_iff.mp hnone entry.2 hmem
  · obtain ⟨rest, hrest⟩ := Journal.own_continues before gap number
    rw [hgap, hmade] at hrest
    rw [← hrest, looksIn_append] at hfirst
    exact absurd (List.append_eq_nil_iff.mp hfirst).1 hlooked

/-- What the first look of an operation says of a registry from which nobody had taken anything. -/
structure FirstLook (count : Nat) : Prop where
  first : looksIn target ((Journal.ofHistory look.before).own number) = []
  /-- It finds nothing just if the registry has had no threads at that moment, -/
  counted : ∃ past moves, (Machine.idle {} count).run? moves = some (past, look.before) ∧
    (look.found = [] ↔ past.world.threadCount? target = some 0)
  /-- that is if its roster is empty, unless another flow is just putting a thread on it. -/
  listed : look.Undisturbed →
    (look.found = [] ↔ enrolledIn target (look.before.map Prod.snd) = [])
  empty : enrolledIn target (look.before.map Prod.snd) = [] → look.found = []
  /-- Every thread counts that was created before. -/
  created : ∀ {creator made thread},
    (Journal.ofHistory look.before).own creator = .started (.create target) :: made →
      .finished (.create target) (.ok thread) ∈ made → look.found ≠ []

/-- A look that takes threads without a doubt that there are some takes all that there are. -/
theorem peek_of_found (hrun : Runs {} history world flows)
    (hpublished : ∀ batch, look.happening = .acted (.registry target .detach) batch →
      ∃ length : Nat, .acted (.registry target (.publish length)) () ∈ look.before.map Prod.snd)
    (huntaken : takenIn target (look.before.map Prod.snd) = []) (hfound : look.found = []) :
    look.happening = .acted (.registry target .peek) (0 : Nat) := by
  obtain ⟨batch, hlook⟩ | ⟨hlook, _⟩ := look.cases
  · obtain ⟨length, hpublish⟩ := hpublished batch hlook
    have hbefore : Runs {} (look.before ++ _) world flows := look.moment ▸ hrun
    obtain ⟨_, _, hbefore⟩ := hbefore.beginning
    obtain ⟨thread, henroll⟩ := hbefore.enroll_of_publish hpublish
    have hstaged := look.found_of_drain hrun hlook
    rw [hfound, stagedIn, huntaken, List.length_nil, List.drop_zero] at hstaged
    have hthread := mem_enrolledIn.mpr ⟨length, henroll⟩
    rw [← hstaged] at hthread
    cases hthread
  · exact hlook

theorem missed_of_untaken (huntaken : takenIn target (look.before.map Prod.snd) = [])
    (hfound : look.found = []) : look.missed = enrolledIn target (look.before.map Prod.snd) := by
  rw [missed, hfound, stagedIn, huntaken]
  rfl

/-- Where nothing was taken, every thread is found whose creator has returned. -/
theorem mem_found {creator : Nat} {made : List Happening} {thread : Ref .thread}
    (hrun : Runs {} history world flows)
    (huntaken : takenIn target (look.before.map Prod.snd) = [])
    (hmade : (Journal.ofHistory look.before).own creator = .started (.create target) :: made)
    (hfinished : .finished (.create target) (.ok thread) ∈ made) : thread ∈ look.found := by
  have hbefore : Runs {} (look.before ++ _) world flows := look.moment ▸ hrun
  obtain ⟨_, _, hbefore⟩ := hbefore.beginning
  obtain ⟨length, henroll⟩ :=
    mem_enrolledIn.mp (mem_enrolledIn_of_finished hbefore hmade hfinished)
  have hstaged : thread ∈ stagedIn target (look.before.map Prod.snd) := by
    rw [stagedIn, huntaken]
    exact mem_enrolledIn.mpr ⟨length, hbefore.mem_history hmade henroll⟩
  rw [← look.found_append_missed hrun] at hstaged
  exact (List.mem_append.mp hstaged).resolve_right (look.not_missed hrun hmade hfinished)

theorem firstLook_of_run? {count : Nat} {moves : List (Nat × Move)} {machine : Machine}
    {operation : Operation} {story : List Happening}
    (hrun : (Machine.idle {} count).run? moves = some (machine, history))
    (hown : (Journal.ofHistory history).own number = .started operation :: story)
    (hcreates : ∀ registry, operation ≠ .create registry)
    (hfirst : looksIn target ((Journal.ofHistory look.before).own number) = [])
    (hpublished : ∀ batch, look.happening = .acted (.registry target .detach) batch →
      ∃ length : Nat, .acted (.registry target (.publish length)) () ∈ look.before.map Prod.snd)
    (huntaken : look.found = [] → takenIn target (look.before.map Prod.snd) = []) :
    look.FirstLook count := by
  have hruns := Machine.runs_of_run? hrun
  refine ⟨hfirst, ?_, ?_, look.enrolled_of_found hruns, ?_⟩
  · have hmoment := hrun
    rw [look.moment] at hmoment
    obtain ⟨past, first, move, next, _, hpast, hmove, _⟩ := Machine.run?_moment hmoment
    obtain ⟨_, hmoves, _⟩ := Machine.move?_moves hmove
    have hafter := hmoves.after
    refine ⟨past, first, hpast, fun hfound => ?_, fun hcount => ?_⟩
    · rw [look.peek_of_found hruns hpublished (huntaken hfound) hfound] at hafter
      obtain ⟨registry, hregistry, hzero⟩ := World.registryAt?_of_peek hafter
      simp [World.threadCount?, hregistry, hzero]
    · by_contra hfound
      obtain ⟨batch, hlook⟩ | ⟨_, hnone⟩ := look.cases
      · obtain ⟨length, hpublish⟩ := hpublished batch hlook
        refine (Machine.runs_of_run? hpast).not_published ?_ length hpublish
        obtain ⟨registry, hregistry, hzero⟩ := Option.map_eq_some_iff.mp hcount
        simp [World.tally, hregistry, hzero]
      · exact hfound hnone
  · refine fun hundisturbed => ⟨fun hfound => ?_, look.enrolled_of_found hruns⟩
    rw [List.eq_nil_iff_forall_not_mem, ← look.missed_of_untaken (huntaken hfound) hfound]
    intro thread hmissed
    obtain ⟨made, hmade⟩ := look.own_before hruns hown
    obtain ⟨other, hother, creator, hcreator, _, _, _, hlock⟩ :=
      look.busy hrun hmade hcreates hmissed
    exact hundisturbed other hother creator hcreator hlock
  · intro creator made thread hmade hfinished hfound
    have hmem := look.mem_found hruns (huntaken hfound) hmade hfinished
    rw [hfound] at hmem
    cases hmem

end Look

end Registry

namespace Runs

variable {history : History} {world : World} {flows : Nat → Flow} {number : Nat}
  {operation : Operation} {context : Ref .context} {shape : ContextShape}
  {first : List (Ref .thread)} {made intake rest : List Happening}

/-- The look of an admission before which the operation had not looked. -/
theorem look_of_intake {outcome : Except Failure Nat} (hrun : Runs {} history world flows)
    (hown : (Journal.ofHistory history).own number =
      .started operation :: (made ++ (intake ++ rest)))
    (hmade : ∀ happening ∈ made, happening.Preliminary)
    (hintake : Context.Intake context shape first intake outcome) :
    ∃ look : Registry.Look shape.registry number history, look.found = first ∧
      looksIn shape.registry ((Journal.ofHistory look.before).own number) = [] ∧
        ∀ batch, look.happening = .acted (.registry shape.registry .detach) batch →
          ∃ length : Nat, .acted (.registry shape.registry (.publish length)) () ∈
            look.before.map Prod.snd := by
  obtain ⟨looking, handing, hlooks, rfl, _⟩ := hintake.looked
  have hquiet : ∀ story, looksIn shape.registry
      (.started operation :: (made ++ .acted (.context context .shape) shape :: story)) =
        looksIn shape.registry story := by
    intro story
    have hnone := (told_of_preliminary hmade).2.2 shape.registry
    rw [← List.singleton_append, looksIn_append, looksIn_append, hnone]
    rfl
  cases hlooks with
  | unused =>
      have hstory : (Journal.ofHistory history).own number =
          (.started operation :: (made ++ [.acted (.context context .shape) shape])) ++
            .acted (.registry shape.registry .peek) (0 : Nat) :: (handing ++ rest) := by
        simp [hown]
      obtain ⟨before, place, after, hmoment, hearly, hgains⟩ := hrun.moment_of_own hstory
      refine ⟨⟨before, place, _, after, [], hmoment, hgains, by simp [Happening.found?]⟩, rfl, ?_,
        fun batch hlook => by cases hlook⟩
      rw [hearly, hquiet]
      rfl
  | @drained count hcount batch =>
      have hstory : (Journal.ofHistory history).own number =
          (.started operation :: (made ++ [.acted (.context context .shape) shape,
            .acted (.registry shape.registry .peek) count,
              .acted (.acquire (.roster shape.registry)) ()])) ++
            .acted (.registry shape.registry .detach) batch ::
              (.acted (.release (.roster shape.registry)) () :: (handing ++ rest)) := by
        simp [hown]
      obtain ⟨before, place, after, hmoment, hearly, hgains⟩ := hrun.moment_of_own hstory
      refine ⟨⟨before, place, _, after, batch.toList, hmoment, hgains, by simp [Happening.found?]⟩,
        rfl, ?_, fun _ _ => ?_⟩
      · rw [hearly, hquiet]
        simp [looksIn, Happening.found?, hcount]
      · rw [hmoment] at hrun
        obtain ⟨_, _, hbefore⟩ := hrun.beginning
        exact hbefore.published_of_peek (hbefore.mem_history hearly (by simp)) hcount

theorem shape_of_read {late last : List Happening} (hrun : Runs {} history world flows)
    (hown : (Journal.ofHistory history).own number =
      .started operation :: (made ++ (late ++ last)))
    (hshape : world.contextShape? context = some shape) :
    ∀ seen, .acted (.context context .shape) seen ∈ late → seen = shape := by
  intro seen hmem
  have hseen := hrun.contextShape_of_read (hrun.mem_history hown
    (List.mem_append_right _ (List.mem_append_left _ hmem)))
  exact Option.some.inj (hseen.symm.trans hshape)

/-- A truthful manager whose registry was kept has threads just if the admission before has found
some. -/
theorem ready_iff {count : Nat} {ready : Bool} (hrun : Runs {} history world flows)
    (hown : (Journal.ofHistory history).own number = .started operation ::
      (made ++ (Context.opening context shape intake ready ++ rest)))
    (hmade : ∀ happening ∈ made, happening.Preliminary)
    (hintake : Context.Intake context shape first intake (.ok count))
    (hshape : world.contextShape? context = some shape) (hapart : world.Apart)
    (htruthful : shape.manager.Truthful history)
    (hkept : Registry.KeptFor shape.registry number history) : ready = false ↔ first = [] := by
  have hstory : (Journal.ofHistory history).own number = (.started operation ::
      (made ++ (intake ++ [.acted (.context context .shape) shape]))) ++
        .answered (.hasThreads shape.manager) (.ok ready) :: rest := by
    simp [hown, Context.opening]
  obtain ⟨before, index, after, rfl, hearly, hgains⟩ := hrun.moment_of_own hstory
  obtain ⟨_, _, hbefore⟩ := hrun.beginning
  have htaken : takenIn shape.registry ((Journal.ofHistory before).own number) = first := by
    have hnone := (told_of_preliminary hmade).2.2 shape.registry
    rw [hearly, takenIn_eq, ← List.singleton_append, looksIn_append, looksIn_append, hnone,
      looksIn_append, hintake.told.2.2]
    simp [looksIn, Happening.found?]
  rw [htruthful.said]
  constructor
  · rintro hgives
    by_contra hfirst
    obtain ⟨thread, threads, rfl⟩ := List.exists_cons_of_ne_nil hfirst
    obtain ⟨_, looking, handing, late, _, hhandsOver, rfl, _⟩ := hintake.counted
    obtain ⟨sched, hanswer, _⟩ := hhandsOver.bound List.mem_cons_self
    have hmem : .answered (.schedule shape.manager "" thread) (.ok sched) ∈
        before.map Prod.snd := hbefore.mem_history hearly (by simp [hanswer])
    obtain ⟨entry, hentry, hsame⟩ := List.mem_map.mp hmem
    have hnone := List.any_eq_false.mp hgives entry hentry
    simp [hsame, Happening.gives] at hnone
  · rintro rfl
    by_contra hgives
    obtain ⟨other, hother⟩ := hrun.taken_of_gives hapart hshape (by simpa using hgives)
    by_cases hnumber : other = number
    · rw [hnumber, htaken] at hother
      exact hother rfl
    · exact hother (hkept.untaken hgains rfl hnumber)

end Runs

namespace Context

variable {count : Nat} {moves : List (Nat × Move)} {machine : Machine} {history : History}
  {number : Nat} {operation : Operation} {context : Ref .context} {shape : ContextShape}
  {first : List (Ref .thread)} {made intake rest : List Happening}

/-- What the first admission of an operation has found says whether the manager has threads. -/
theorem firstLook_of_opening {admitted : Nat} {ready : Bool}
    (hrun : (Machine.idle {} count).run? moves = some (machine, history))
    (hruns : operation.runsContext)
    (hown : (Journal.ofHistory history).own number =
      .started operation :: (made ++ (opening context shape intake ready ++ rest)))
    (hmade : ∀ happening ∈ made, happening.Preliminary)
    (hintake : Intake context shape first intake (.ok admitted))
    (hshape : machine.world.contextShape? context = some shape) (hapart : machine.world.Apart)
    (htruthful : shape.manager.Truthful history)
    (hkept : Registry.KeptFor shape.registry number history) :
    ∃ look : Registry.Look shape.registry number history, look.found = first ∧
      look.FirstLook count ∧ takenIn shape.registry (look.before.map Prod.snd) = [] ∧
        (ready = false ↔ look.found = []) := by
  have hall := Machine.runs_of_run? hrun
  have hready := hall.ready_iff hown hmade hintake hshape hapart htruthful hkept
  have hlate : (Journal.ofHistory history).own number = .started operation :: (made ++ (intake ++
      (.acted (.context context .shape) shape ::
        .answered (.hasThreads shape.manager) (.ok ready) :: rest))) := by
    simp [hown, opening]
  have hasked : (Journal.ofHistory history).own number = (.started operation ::
      (made ++ (intake ++ [.acted (.context context .shape) shape]))) ++
        .answered (.hasThreads shape.manager) (.ok ready) :: rest := by
    simp [hown, opening]
  obtain ⟨look, hfound, hfirst, hpublished⟩ := hall.look_of_intake hlate hmade hintake
  have huntaken : takenIn shape.registry (look.before.map Prod.snd) = [] := by
    refine look.untaken_before hall hkept hfirst hasked rfl ?_
    rw [← List.singleton_append, looksIn_append, looksIn_append, looksIn_append,
      hintake.told.2.2]
    simp
  exact ⟨look, hfound, look.firstLook_of_run? hrun hown (not_create hruns) hfirst hpublished
    fun _ => huntaken, huntaken, hfound ▸ hready⟩

/-- An admission that fails has found threads. -/
theorem firstLook_of_refusal {outcome : Except Failure Nat}
    (hrun : (Machine.idle {} count).run? moves = some (machine, history))
    (hruns : operation.runsContext)
    (hown : (Journal.ofHistory history).own number =
      .started operation :: (made ++ (intake ++ rest)))
    (hmade : ∀ happening ∈ made, happening.Preliminary)
    (hintake : Intake context shape first intake outcome) (hfound : first ≠ []) :
    ∃ look : Registry.Look shape.registry number history,
      look.FirstLook count ∧ look.found ≠ [] := by
  obtain ⟨look, rfl, hfirst, hpublished⟩ :=
    (Machine.runs_of_run? hrun).look_of_intake hown hmade hintake
  exact ⟨look, look.firstLook_of_run? hrun hown (not_create hruns) hfirst hpublished
    fun hnone => absurd hnone hfound, hfound⟩

theorem readyIn_of_preliminary {story : List Happening}
    (hstory : ∀ happening ∈ story, happening.Preliminary) : readyIn story = [] := by
  refine List.filterMap_eq_nil_iff.mpr fun happening hmem => ?_
  by_contra hsome
  have hcalls := call?_of_said (Or.inl (Option.isSome_iff_ne_none.mpr hsome))
  exact hcalls (hstory happening hmem).told.1

theorem readyIn_run {made late last : List Happening}
    (hquiet : ∀ happening ∈ made ++ last, happening.Preliminary) :
    readyIn (made ++ (late ++ last)) = readyIn late := by
  obtain ⟨hmade, hlast⟩ := List.forall_mem_append.mp hquiet
  have hmade := readyIn_of_preliminary hmade
  have hlast := readyIn_of_preliminary hlast
  rw [readyIn] at hmade hlast
  rw [readyIn, List.filterMap_append, List.filterMap_append, hmade, hlast, List.append_nil]
  rfl

section
variable {late last : List Happening} {left : Program Unit}

/-- An operation that has heard from the manager of its context whether there are threads. -/
theorem told_of_run? {ready : Bool}
    (hrun : (Machine.idle {} count).run? moves = some (machine, history))
    (hruns : operation.runsContext)
    (hown : (Journal.ofHistory history).own number =
      .started operation :: (made ++ (late ++ last)))
    (hquiet : ∀ happening ∈ made ++ last, happening.Preliminary)
    (hshape : machine.world.contextShape? context = some shape)
    (hreaches : (run context).Reaches late left) (hready : ready ∈ readyIn late)
    (hapart : machine.world.Apart) (htruthful : shape.manager.Truthful history)
    (hkept : Registry.KeptFor shape.registry number history) :
    ∃ (intake after : List Happening) (admitted : Nat)
      (look : Registry.Look shape.registry number history),
        late = opening context shape intake ready ++ after ∧
          Intake context shape look.found intake (.ok admitted) ∧ readyIn late = [ready] ∧
            look.FirstLook count ∧ takenIn shape.registry (look.before.map Prod.snd) = [] ∧
              (ready = false ↔ look.found = []) ∧
                (if ready then do
                  report (.loopStarted shape.core shape.admission)
                  invoke (.runLoop context)
                  report (.loopFinished shape.core)
                else raise (.nothingToRun shape.core) : Program Unit).Reaches after left := by
  have hall := Machine.runs_of_run? hrun
  obtain ⟨first, intake, after, admitted, hintake, rfl, hone, hafter⟩ :=
    opening_of_ready (hall.shape_of_read hown hshape) hreaches hready
  have hstory : (Journal.ofHistory history).own number = .started operation ::
      (made ++ (opening context shape intake ready ++ (after ++ last))) := by
    rw [hown, List.append_assoc (opening context shape intake ready)]
  obtain ⟨look, rfl, hfirstLook, huntaken, hiff⟩ := firstLook_of_opening hrun hruns hstory
    (List.forall_mem_append.mp hquiet).1 hintake hshape hapart htruthful hkept
  exact ⟨intake, after, admitted, look, rfl, hintake, hone, hfirstLook, huntaken, hiff, hafter⟩

/-- An operation during which no callback has failed fails for want of threads just if it has found
none. -/
theorem finished_of_run? {result : Except Failure Unit}
    (hrun : (Machine.idle {} count).run? moves = some (machine, history))
    (hruns : operation.runsContext)
    (hown : (Journal.ofHistory history).own number =
      .started operation :: (made ++ (late ++ last)))
    (hquiet : ∀ happening ∈ made ++ last, happening.Preliminary)
    (hshape : machine.world.contextShape? context = some shape)
    (hreaches : (run context).Reaches late (.done result))
    (hcalm : ∀ happening ∈ late, happening.fails = false)
    (hapart : machine.world.Apart) (htruthful : shape.manager.Truthful history)
    (hkept : Registry.KeptFor shape.registry number history) :
    ∃ look : Registry.Look shape.registry number history, look.FirstLook count ∧
      (result = .error (.violation (.nothingToRun shape.core)) ↔ look.found = []) ∧
        (look.found = [] → false ∈ readyIn late) := by
  have hall := Machine.runs_of_run? hrun
  have hreads := hall.shape_of_read hown hshape
  obtain ⟨first, intake, rest, outcome, hintake, rfl, ⟨ready, hready, hiff⟩ | ⟨hfirst, hresult⟩⟩ :=
    ended_of_reaches hreads hreaches hcalm
  · obtain ⟨_, _, _, look, _, _, _, hfirstLook, _, hfound, _⟩ :=
      told_of_run? hrun hruns hown hquiet hshape hreaches hready hapart htruthful hkept
    refine ⟨look, hfirstLook, hiff.trans hfound, fun hnone => ?_⟩
    exact hfound.mpr hnone ▸ hready
  · rw [List.append_assoc] at hown
    obtain ⟨look, hfirstLook, hfound⟩ := firstLook_of_refusal hrun hruns hown
      (List.forall_mem_append.mp hquiet).1 hintake hfirst
    exact ⟨look, hfirstLook, iff_of_false hresult hfound, fun hnone => absurd hnone hfound⟩

end

end Context

end CoreEngines
