import CoreEngines.Proofs.Admission.Batches
import CoreEngines.Proofs.Admission.Intakes

/-!
Managers that fail.  When a manager fails on a thread that it was handed, the operation that handed
it over was in the middle of an admission step, and does nothing more: it unwinds with that failure.
-/

namespace CoreEngines

/-- The failure of a manager on a thread that it was handed. -/
def Happening.spoils? : Happening → Option Failure
  | .answered (.schedule _ _ _) (.error failure) => some failure
  | _ => none

def Happening.schedules : Happening → Bool
  | .answered (.schedule _ _ _) _ => true
  | _ => false

/-- Whether a step neither hands over a thread nor begins a round in which threads are handed
over. -/
def Happening.Harmless : Happening → Prop
  | .answered (.schedule _ _ _) _ | .called (.runLoop _) => False
  | _ => True

section
variable {happening : Happening}

theorem Happening.Plain.harmless (hplain : happening.Plain) : happening.Harmless := by
  unfold Happening.Harmless
  split <;> first | exact hplain.elim | trivial

theorem Happening.Harmless.spoils? (hharmless : happening.Harmless) : happening.spoils? = none := by
  unfold Happening.spoils?
  split
  · exact hharmless.elim
  · rfl

theorem Happening.Harmless.schedules (hharmless : happening.Harmless) :
    happening.schedules = false := by
  unfold Happening.schedules
  split
  · exact hharmless.elim
  · rfl

theorem Happening.schedules_of_spoils {failure : Failure}
    (hspoils : happening.spoils? = some failure) : happening.schedules := by
  unfold spoils? at hspoils
  split at hspoils
  · rfl
  · cases hspoils

theorem Happening.isStep_of_schedules (hschedules : happening.schedules) : happening.isStep := by
  unfold schedules at hschedules
  split at hschedules
  · rfl
  · cases hschedules

theorem harmless_of_shows {topics : List Topic} (htopics : .thread ∉ topics)
    (hshows : happening.Shows topics) : happening.Harmless := by
  unfold Happening.Harmless
  split
  · exact htopics (hshows .thread rfl)
  · exact htopics (hshows (by simp))
  · trivial

end

def Spoils {α : Type} (spoiled : Option Failure) (result : Except Failure α) : Prop :=
  ∀ failure, spoiled = some failure → result = .error failure

/-- The discipline of failed managers: after the failure there are no more steps. -/
def unwinding : Discipline (Option Failure) where
  start _ := none
  observe spoiled happening := happening.spoils?.or spoiled
  Allows spoiled _ := spoiled = none
  Presumes _ _ := True
  Enters _ spoiled := spoiled = none
  Leaves procedure _ later result :=
    match procedure with
    | .runLoop _ => Spoils later result
    | _ => later = none
  Returns _ spoiled result := Spoils spoiled result

def Program.Unwinds {α : Type} (program : Program α) : Prop :=
  program.Ensures unwinding none Spoils

theorem spoils_none {α : Type} (result : Except Failure α) : Spoils none result :=
  fun _ hnone => by cases hnone

theorem spoils_ok {α : Type} {spoiled : Option Failure} {value : α}
    (hspoils : Spoils spoiled (.ok value : Except Failure α)) : spoiled = none := by
  cases spoiled with
  | none => rfl
  | some failure => cases hspoils failure rfl

namespace Program

variable {α β : Type}

theorem Within.unspoiled {program : Program α} (hharmless : program.Within Happening.Harmless) :
    program.Ensures unwinding none fun later _ => later = none := by
  refine hharmless.ensures ?_ ?_ ?_
  · rfl
  · rintro _ happening rfl hstep
    exact ⟨rfl, by simp [unwinding, hstep.spoils?]⟩
  · rintro procedure _ rfl hstep
    refine ⟨rfl, fun later result hleaves => ?_⟩
    cases procedure with
    | runLoop context => exact hstep.elim
    | _ => exact hleaves

/-- Nothing is spoiled where nothing is handed over. -/
theorem Within.unwinds {program : Program α} (hharmless : program.Within Happening.Harmless) :
    program.Unwinds :=
  hharmless.unspoiled.mono fun _ result hnone => hnone ▸ spoils_none result

theorem Unwinds.bind {program : Program α} {next : α → Program β} (hprogram : program.Unwinds)
    (hnext : ∀ value, (next value).Unwinds) : (program >>= next).Unwinds := by
  apply Ensures.bind hprogram
  · intro later value hspoils
    obtain rfl := spoils_ok hspoils
    exact hnext value
  · intro later failure hspoils other hother
    cases hspoils other hother
    rfl

theorem Unwinds.request (callback : Callback) : (request callback).Unwinds := by
  intro result _
  refine ⟨rfl, fun failure hspoiled => ?_⟩
  change ((Happening.answered callback result).spoils?.or none) = some failure at hspoiled
  rw [Option.or_none] at hspoiled
  unfold Happening.spoils? at hspoiled
  split at hspoiled
  case h_1 heq =>
    cases heq
    cases hspoiled
    rfl
  case h_2 => cases hspoiled

theorem Unwinds.perform (action : Action) : (perform action).Unwinds :=
  Within.unwinds (Within.perform fun _ => trivial)

theorem Unwinds.report (event : TraceEvent) : (report event).Unwinds :=
  Within.unwinds (Within.report trivial)

theorem Unwinds.pure (value : α) : (pure value : Program α).Unwinds :=
  spoils_none _

theorem Unwinds.raise (violation : Violation) : (raise violation : Program α).Unwinds :=
  spoils_none _

theorem Unwinds.runLoop (context : Ref .context) : (invoke (.runLoop context)).Unwinds :=
  fun _ => ⟨rfl, rfl, fun _ _ hleaves => hleaves⟩

end Program

open Program

theorem harmless_of_behaves {α : Type} {program : Program α} {topics : List Topic}
    (hprogram : program.Behaves topics) (htopics : .thread ∉ topics) :
    program.Within Happening.Harmless :=
  hprogram.shows.mono fun _ hshows => harmless_of_shows htopics hshows

theorem bind_harmless (thread : Ref .thread) (sched : SchedRef) :
    (Thread.bind thread sched).Within Happening.Harmless := by
  apply Within.bind (Within.perform fun _ => trivial)
  intro first
  cases first with
  | true => exact Within.pure _
  | false => exact Within.bind (Within.perform fun _ => trivial) fun _ => Within.raise _

theorem admitEach_unwinds (manager : ManagerRef) (threads : List (Ref .thread)) :
    (Context.admitEach manager threads).Unwinds := by
  induction threads with
  | nil => exact .pure _
  | cons thread threads ih =>
      refine .bind (.request _) fun sched => .bind (.perform _) fun id => ?_
      refine .bind (.report _) fun _ => .bind (bind_harmless thread sched).unwinds fun _ => ih

theorem admitStaged_unwinds (context : Ref .context) : (Context.admitStaged context).Unwinds := by
  refine .bind (.perform _) fun (shape : ContextShape) => ?_
  have htake := harmless_of_behaves (Registry.takeStaged_behaves shape.registry) (by decide)
  refine .bind htake.unwinds fun threads => ?_
  split
  · exact .pure _
  · exact .bind (admitEach_unwinds _ _) fun _ => .bind (.report _) fun _ => .pure _

theorem loopStep_unwinds (context : Ref .context) : (Context.loopStep context).Unwinds := by
  refine .bind (.perform _) fun (shape : ContextShape) => .bind (.request _) fun quantum => ?_
  cases quantum with
  | exit => exact .pure _
  | proceed =>
      dsimp only
      split
      · exact .runLoop context
      · exact .bind (admitStaged_unwinds context) fun _ => .runLoop context

theorem run_unwinds (context : Ref .context) : (Context.run context).Unwinds := by
  refine .bind (admitStaged_unwinds context) fun _ => .bind (.perform _) fun shape => ?_
  refine .bind (.request _) fun ready => ?_
  cases ready with
  | false => exact .raise _
  | true => exact .bind (.report _) fun _ => .bind (.runLoop context) fun _ => .report _

theorem operate_unwinds (engine : Ref .engine) (core : CoreId) (shape : EngineShape) :
    (Engine.operate engine core shape).Unwinds := by
  unfold Engine.operate
  split
  · exact .bind (.request _) fun never => nomatch never
  · exact (Within.invoke trivial).unwinds
  · have hmake := harmless_of_behaves (Engine.makeContext_behaves engine core shape) (by decide)
    exact .bind hmake.unwinds run_unwinds

theorem enter_unwinds (engine : Ref .engine) : (Engine.enter engine).Unwinds := by
  refine .bind (.perform _) fun (shape : EngineShape) => .bind (.perform _) fun entered => ?_
  split
  · exact .raise _
  · refine .bind (.perform _) fun context => ?_
    cases context with
    | some context => exact .raise _
    | none =>
        refine .bind (.request _) fun core => ?_
        split
        · exact .bind (.report _) fun _ => operate_unwinds engine core shape
        · exact .raise _

def Operation.isIntake : Operation → Bool
  | admitStaged _ | run _ | enter _ => true
  | _ => false

/-- All other operations hand nothing over. -/
theorem Operation.harmless {operation : Operation} (hintake : operation.isIntake = false) :
    operation.program.Within Happening.Harmless := by
  by_cases hplain : operation.plain
  · exact (Operation.program_plain hplain).mono fun _ => Happening.Plain.harmless
  · have hbehaves := operation.program_behaves
    cases operation with
    | create registry => exact harmless_of_behaves hbehaves (by simp)
    | takeStaged registry => exact harmless_of_behaves hbehaves (by simp)
    | takeStagedLocked registry => exact harmless_of_behaves hbehaves (by simp)
    | bind thread sched => exact bind_harmless thread sched
    | admitStaged context | run context | enter engine => cases hintake
    | _ => exact absurd rfl hplain

theorem Operation.program_unwinds (operation : Operation) : operation.program.Unwinds := by
  cases hintake : operation.isIntake with
  | false => exact (Operation.harmless hintake).unwinds
  | true =>
      cases operation with
      | admitStaged context => exact admitStaged_unwinds context
      | run context => exact run_unwinds context
      | enter engine => exact enter_unwinds engine
      | _ => cases hintake

/-- All operations and procedures unwind at once when a manager fails. -/
theorem unwinding_obeyed : unwinding.Obeyed where
  operations operation := operation.program_unwinds
  procedures procedure spoiled hnone := by
    obtain rfl : spoiled = none := hnone
    cases procedure with
    | runLoop context => exact loopStep_unwinds context
    | claimSerial counter seen =>
        exact (harmless_of_behaves (SerialCounter.claimStep_behaves counter seen)
          (by decide)).unspoiled
    | idle => exact (harmless_of_behaves Engine.idleStep_behaves (by decide)).unspoiled

theorem unwinding_upholds {start : World} : unwinding.Upholds start fun _ _ _ => True where
  idle := trivial
  start _ _ _ _ _ := trivial
  step _ _ _ _ _ _ := ⟨trivial, fun _ => trivial⟩
  finish _ _ _ _ _ _ _ := trivial

/-- After the failure of a manager nothing is left but to unwind. -/
theorem Program.Unwinds.done_of_spoiled {α : Type} {program rest : Program α}
    {story : List Happening} {happening : Happening} {failure : Failure}
    (hunwinds : program.Unwinds) (hreaches : program.Reaches (story ++ [happening]) rest)
    (hspoils : happening.spoils? = some failure) : rest = .done (.error failure) := by
  obtain ⟨_, hrest⟩ := hunwinds.of_reaches unwinding_obeyed.procedures (fun _ _ => trivial) hreaches
  rw [List.foldl_append] at hrest
  have hspoiled : [happening].foldl unwinding.observe (story.foldl unwinding.observe none) =
      some failure := by
    simp [unwinding, hspoils]
  rw [hspoiled] at hrest
  obtain ⟨result, rfl, hresult⟩ := hrest.done_of_stuck fun _ =>
    ⟨trivial, fun hnone => by cases hnone⟩
  rw [hresult failure rfl]

section
variable {α β : Type}

/-- Within so many steps, threads are handed to managers by admission steps only. -/
def Program.SchedulesInIntakes (program : Program α) (bound : Nat) : Prop :=
  ∀ (story : List Happening) (happening : Happening) (rest : Program α), story.length < bound →
    program.Reaches (story ++ [happening]) rest → happening.schedules →
      ∃ early context late left, story = early ++ late ∧
        (Context.admitStaged context).Reaches (late ++ [happening]) left

variable {bound : Nat}

theorem admitStaged_schedules (context : Ref .context) :
    (Context.admitStaged context).SchedulesInIntakes bound :=
  fun story _ rest _ hreaches _ => ⟨[], context, story, rest, rfl, hreaches⟩

theorem Program.Within.schedules {program : Program α}
    (hharmless : program.Within Happening.Harmless) : program.SchedulesInIntakes bound := by
  intro story happening rest _ hreaches hschedules
  have hcode : ∀ procedure, (Happening.called procedure).Harmless →
      procedure.code.Within Happening.Harmless := by
    intro procedure hprocedure
    cases procedure with
    | runLoop context => exact hprocedure.elim
    | claimSerial counter seen =>
        exact harmless_of_behaves (SerialCounter.claimStep_behaves counter seen) (by decide)
    | idle => exact harmless_of_behaves Engine.idleStep_behaves (by decide)
  obtain ⟨_, hpermits⟩ := hharmless.of_reaches hcode hreaches
  rw [(hpermits happening (by simp)).schedules] at hschedules
  cases hschedules

theorem Program.SchedulesInIntakes.bind {program : Program α} {next : α → Program β}
    (hprogram : program.SchedulesInIntakes bound)
    (hnext : ∀ value, (next value).SchedulesInIntakes bound) :
    (program >>= next).SchedulesInIntakes bound := by
  intro story happening rest hlength hreaches hschedules
  rcases reaches_bind hreaches with ⟨left, hleft, _⟩ | ⟨early, value, late, hearly, hlate, hstory⟩
  · exact hprogram _ _ _ hlength hleft hschedules
  · rcases List.eq_nil_or_concat late with rfl | ⟨late, last, rfl⟩
    · rw [List.append_nil] at hstory
      exact hprogram _ _ _ hlength (hstory ▸ hearly) hschedules
    · rw [List.concat_eq_append, ← List.append_assoc] at hstory
      obtain ⟨rfl, hlast⟩ := List.append_inj' hstory rfl
      obtain rfl : happening = last := List.singleton_inj.mp hlast
      rw [List.length_append] at hlength
      rw [List.concat_eq_append] at hlate
      obtain ⟨first, context, last, left, rfl, hleft⟩ :=
        hnext value _ _ _ (by omega) hlate hschedules
      exact ⟨early ++ first, context, last, left, (List.append_assoc ..).symm, hleft⟩

theorem loopStep_schedules {context : Ref .context}
    (hloop : (invoke (.runLoop context)).SchedulesInIntakes bound) :
    (Context.loopStep context).SchedulesInIntakes bound := by
  refine .bind (Within.perform fun _ => trivial).schedules fun (shape : ContextShape) => ?_
  refine .bind (Within.request fun _ => trivial).schedules fun quantum => ?_
  cases quantum with
  | exit => exact (Within.pure _).schedules
  | proceed =>
      dsimp only
      split
      · exact hloop
      · exact .bind (admitStaged_schedules context) fun _ => hloop

/-- The induction is on the number of steps, since each round of the loop calls the next one. -/
theorem runLoop_schedules (context : Ref .context) (bound : Nat) :
    (invoke (.runLoop context)).SchedulesInIntakes bound := by
  induction bound with
  | zero => exact fun _ _ _ hlength => absurd hlength (Nat.not_lt_zero _)
  | succ bound ih =>
      intro story happening rest hlength hreaches hschedules
      cases story with
      | nil =>
          obtain ⟨_, hgoes, _⟩ := reaches_cons.mp hreaches
          cases hgoes
          cases hschedules
      | cons first story =>
          obtain ⟨_, hgoes, hreaches⟩ := reaches_cons.mp hreaches
          cases hgoes
          rw [andThen_done] at hreaches
          have hlength' : story.length < bound := Nat.lt_of_succ_lt_succ hlength
          obtain ⟨early, place, late, left, rfl, hleft⟩ :=
            loopStep_schedules ih _ _ _ hlength' hreaches hschedules
          exact ⟨_ :: early, place, late, left, rfl, hleft⟩

theorem run_schedules (context : Ref .context) :
    (Context.run context).SchedulesInIntakes bound := by
  refine .bind (admitStaged_schedules context) fun _ => ?_
  refine .bind (Within.perform fun _ => trivial).schedules fun (shape : ContextShape) => ?_
  refine .bind (Within.request fun _ => trivial).schedules fun ready => ?_
  cases ready with
  | false => exact (Within.raise _).schedules
  | true =>
      exact .bind (Within.report trivial).schedules fun _ =>
        .bind (runLoop_schedules context bound) fun _ => (Within.report trivial).schedules

theorem operate_schedules (engine : Ref .engine) (core : CoreId) (shape : EngineShape) :
    (Engine.operate engine core shape).SchedulesInIntakes bound := by
  unfold Engine.operate
  split
  · exact .bind (Within.request fun _ => trivial).schedules fun never => nomatch never
  · exact (Within.invoke trivial).schedules
  · have hmake := harmless_of_behaves (Engine.makeContext_behaves engine core shape) (by decide)
    exact .bind hmake.schedules run_schedules

theorem enter_schedules (engine : Ref .engine) :
    (Engine.enter engine).SchedulesInIntakes bound := by
  refine .bind (Within.perform fun _ => trivial).schedules fun (shape : EngineShape) => ?_
  refine .bind (Within.perform fun _ => trivial).schedules fun entered => ?_
  split
  · exact (Within.raise _).schedules
  · refine .bind (Within.perform fun _ => trivial).schedules fun context => ?_
    cases context with
    | some context => exact (Within.raise _).schedules
    | none =>
        refine .bind (Within.request fun _ => trivial).schedules fun core => ?_
        split
        · exact .bind (Within.report trivial).schedules fun _ => operate_schedules engine core shape
        · exact (Within.raise _).schedules

/-- Threads are handed to managers by admission steps only. -/
theorem Operation.program_schedules (operation : Operation) :
    operation.program.SchedulesInIntakes bound := by
  cases hintake : operation.isIntake with
  | false => exact (Operation.harmless hintake).schedules
  | true =>
      cases operation with
      | admitStaged context => exact admitStaged_schedules context
      | run context => exact run_schedules context
      | enter engine => exact enter_schedules engine
      | _ => cases hintake

end

namespace Runs

variable {start world : World} {history : History} {flows : Nat → Flow} {index number : Nat}
  {operation : Operation} {made after : List Happening} {happening : Happening}
  {failure : Failure}

/-- After the failure of a manager an operation can only return. -/
theorem spoiled_last (hrun : Runs start history world flows)
    (hown : (Journal.ofHistory history).own number =
      .started operation :: (made ++ happening :: after))
    (hspoils : happening.spoils? = some failure) :
    after = [] ∨ after = [.finished operation (.error failure)] := by
  have hend : ∀ {late : List Happening} {rest : Program operation.Reply},
      operation.program.Reaches (made ++ happening :: late) rest →
        late = [] ∧ rest = .done (.error failure) := by
    intro late rest hreaches
    rw [List.append_cons] at hreaches
    obtain ⟨middle, hmiddle, hlate⟩ := reaches_append.mp hreaches
    obtain rfl := operation.program_unwinds.done_of_spoiled hmiddle hspoils
    exact reaches_done.mp hlate
  rcases hrun.reaches hown with ⟨rest, hreaches⟩ | ⟨steps, result, hsteps, hreaches⟩
  · exact Or.inl (hend hreaches).1
  · rcases List.eq_nil_or_concat after with rfl | ⟨late, last, rfl⟩
    · exact Or.inl rfl
    · rw [List.concat_eq_append, ← List.cons_append, ← List.append_assoc] at hsteps
      obtain ⟨rfl, hlast⟩ := List.append_inj' hsteps rfl
      obtain ⟨rfl, hdone⟩ := hend hreaches
      cases hdone
      obtain rfl : last = _ := List.singleton_inj.mp hlast
      exact Or.inr rfl

theorem intake_of_schedules (hrun : Runs start history world flows)
    (hown : (Journal.ofHistory history).own number =
      .started operation :: (made ++ happening :: after)) (hschedules : happening.schedules) :
    ∃ early context late left, made = early ++ late ∧
      (Context.admitStaged context).Reaches (late ++ [happening]) left := by
  obtain ⟨rest, hreaches⟩ := hrun.reaches_step hown (Happening.isStep_of_schedules hschedules)
  exact operation.program_schedules _ _ _ (Nat.lt_succ_self _) hreaches hschedules

/-- When a manager fails on a thread, the admission step fails with it. -/
theorem intake_of_spoiled (hrun : Runs start history world flows)
    (hown : (Journal.ofHistory history).own number = .started operation :: (made ++ [happening]))
    (hspoils : happening.spoils? = some failure) :
    ∃ early context late, made = early ++ late ∧
      (Context.admitStaged context).Tells (late ++ [happening]) (.error failure) := by
  obtain ⟨early, context, late, left, rfl, hleft⟩ :=
    hrun.intake_of_schedules hown (Happening.schedules_of_spoils hspoils)
  obtain rfl := (admitStaged_unwinds context).done_of_spoiled hleft hspoils
  exact ⟨early, context, late, rfl, (Context.admitStaged_straight context).tells hleft⟩

/-- A failed operation is about to return. -/
theorem unwound {numbers : List Nat} {rest : Program operation.Reply} {below : Flow}
    (hrun : Runs start history world flows) (hflow : flows index = ⟨operation, rest⟩ :: below)
    (hrunning : (Journal.ofHistory history).running index = number :: numbers)
    (hown : (Journal.ofHistory history).own number = .started operation :: (made ++ [happening]))
    (hspoils : happening.spoils? = some failure) : rest = .done (.error failure) := by
  have hspent : ∀ other rest,
      ¬ operation.program.Reaches ((made ++ [happening]) ++ [other]) rest := by
    intro other rest hlonger
    obtain ⟨middle, hmiddle, hother⟩ := reaches_append.mp hlonger
    obtain rfl := operation.program_unwinds.done_of_spoiled hmiddle hspoils
    cases (reaches_done.mp hother).1
  obtain ⟨result, rfl, hreaches⟩ := hrun.done_of_spent hflow hrunning hown hspent
  exact operation.program_unwinds.done_of_spoiled hreaches hspoils

end Runs

end CoreEngines
