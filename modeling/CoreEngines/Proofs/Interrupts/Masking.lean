import CoreEngines.Proofs.Interrupts.Cores

/-!
Masking keeps handlers from waiting for the code that they came upon.  Whoever holds the lock of a
queue has cleared the flag of its core, so no handler comes in, and what a handler finds is never
in the middle of a locked section.
-/

namespace CoreEngines

def Task.Holds (task : Task) (lock : Lock) : Prop :=
  Call.holds lock (calls task.story)

def Task.flag (task : Task) : Bool :=
  Call.flag task.found (calls task.story)

/-- A task has kept to the discipline of calls, will do so, and has saved the flag that it found. -/
structure Task.Sound (task : Task) : Prop where
  mailbox : task.operation.mailbox?.isSome
  kept : task.operation.Calling task.story
  ensures : task.rest.Ensures calling ⟨task.operation, task.story⟩
    (calling.Returns task.operation)
  saved : ∀ flag, .save flag ∈ calls task.story → flag = task.found

/-- At most one handler is in, and it has found an operation that left the flag set, or none. -/
structure Core.Sound (core : Core) : Prop where
  current : ∀ task, core.current = some task → task.Sound ∧ core.enabled = task.flag ∧
    (task.operation.fromInterrupt → core.interrupted ≠ [])
  handler : core.interrupted ≠ [] → match core.current with
    | none => core.enabled = false
    | some task => task.found = false
  depth : core.interrupted.length ≤ 1
  interrupted : ∀ task, some task ∈ core.interrupted → task.Sound ∧ task.flag = true ∧
    task.operation.fromInterrupt = false

/-- All cores are sound, and who holds a lock is running on one of them. -/
structure Cores.Sound (state : Cores) : Prop where
  nodup : state.world.held.Nodup
  cores : ∀ (index : Nat) core, state.cores[index]? = some core → core.Sound
  held : ∀ lock ∈ state.world.held, ∃ (index : Nat) (core : Core) (task : Task),
    state.cores[index]? = some core ∧ core.current = some task ∧ task.Holds lock

namespace Task

variable {task task' : Task} {world later : World} {enabled enabled' : Bool} {lock : Lock}

/-- Who returns holds no lock and leaves the flag as it was. -/
theorem Sound.done (hsound : task.Sound) {result : Except Failure task.operation.Reply}
    (hdone : task.rest = .done result) :
    task.operation.Called task.story ∧ task.flag = task.found ∧ ∀ lock, ¬ task.Holds lock := by
  have hreturns := hsound.ensures
  rw [hdone] at hreturns
  refine ⟨hreturns.2, ?_⟩
  simp only [Holds, flag]
  rcases Operation.called_cases hsound.mailbox hreturns.2 with
    hcalls | ⟨target, hcalls⟩ | ⟨target, flag, hcalls⟩
  · simp [hcalls, Call.flag, Call.holds]
  · simp [hcalls, Call.bare, Call.flag, Call.sets, Call.holds, Call.keeps]
  · have hsaved := hsound.saved flag (by simp [hcalls, Call.shielded])
    simp [hcalls, Call.shielded, Call.flag, Call.sets, Call.holds, Call.keeps, hsaved]

/-- Who has found the flag cleared never sets it. -/
theorem Sound.flag_of_found (hsound : task.Sound) (hfound : task.found = false) :
    task.flag = false := by
  have hsaved := hsound.saved
  rw [flag, hfound]
  rw [hfound] at hsaved
  rcases Operation.calling_cases hsound.mailbox hsound.kept with
    ⟨_, target, hbegins⟩ | ⟨_, target, previous, hbegins⟩
  · exact Call.flag_of_prefix_bare hbegins
  · rcases Call.prefix_shielded_iff.mp hbegins with
      hcalls | hcalls | hcalls | hcalls | hcalls <;> rw [hcalls] at hsaved ⊢
    all_goals first | rfl | exact hsaved previous List.mem_cons_self

/-- What one step of a task is: a step of its program, with the answers of the processor. -/
theorem goes_of_step? (hstep : task.step? world enabled = some (later, enabled', task')) :
    ∃ (rest : Program task.operation.Reply) (happening : Happening),
      task' = ⟨task.operation, rest, task.found, task.story ++ [happening]⟩ ∧
        task.rest.Goes happening rest ∧ world.After happening later ∧ happening.fails = false ∧
          enabled' = (Call.of? happening).elim enabled (Call.sets enabled) ∧
            ∀ flag, Call.of? happening = some (.save flag) → flag = enabled := by
  obtain ⟨operation, rest, found, story⟩ := task
  cases rest with
  | done result => cases hstep
  | act action next =>
      simp only [step?, Option.map_eq_some_iff] at hstep
      obtain ⟨⟨world', rest', happening⟩, hadvance, heq⟩ := hstep
      cases heq
      obtain ⟨hgoes, hafter⟩ := Program.goes_of_advance? hadvance
      refine ⟨rest', happening, rfl, hgoes, hafter, ?_⟩
      cases hgoes with
      | act action next answer => cases action <;> simp [Call.of?, Call.sets, Happening.fails]
  | emit event next =>
      cases hstep
      exact ⟨_, _, rfl, .emit event next, rfl, rfl, rfl, by simp [Call.of?]⟩
  | choose next => cases hstep
  | ask callback next =>
      cases callback with
      | mask =>
          cases hstep
          refine ⟨_, _, rfl, .ask .mask next (.ok enabled), rfl, rfl, rfl, ?_⟩
          rintro flag hsave
          cases hsave
          rfl
      | restore previous =>
          cases hstep
          refine ⟨_, _, rfl, .ask (.restore enabled') next (.ok ()), rfl, rfl, rfl, ?_⟩
          simp [Call.of?]
      | _ => cases hstep
  | call procedure next =>
      cases hstep
      exact ⟨_, _, rfl, .call procedure next, rfl, rfl, rfl, by simp [Call.of?]⟩

/-- A task that has still to take a lock holds none. -/
theorem Sound.not_holds (hsound : task.Sound) {taken : Lock}
    {next : Unit → Program task.operation.Reply} (hrest : task.rest = .act (.acquire taken) next) :
    ¬ task.Holds lock := by
  have hensures := hsound.ensures
  rw [hrest] at hensures
  obtain ⟨hallows, _⟩ := hensures () rfl
  have hkept : task.operation.Calling (task.story ++ [Happening.acted (.acquire taken) ()]) :=
    hallows
  rcases Operation.calling_cases hsound.mailbox hkept with
    ⟨_, target, hbegins⟩ | ⟨_, target, previous, hbegins⟩
  · rw [calls_concat] at hbegins
    exact Call.not_holds_of_acquire true (Or.inl hbegins)
  · rw [calls_concat] at hbegins
    exact Call.not_holds_of_acquire previous (Or.inr hbegins)

/-- A task stays sound, and the flag stays as its calls say. -/
theorem Sound.step (hsound : task.Sound) (hflag : enabled = task.flag)
    (hstep : task.step? world enabled = some (later, enabled', task')) :
    task'.Sound ∧ enabled' = task'.flag ∧ task'.operation.fromInterrupt =
      task.operation.fromInterrupt ∧ task'.found = task.found ∧
        ∃ happening, calls task'.story = calls task.story ++ (Call.of? happening).toList ∧
          world.After happening later := by
  obtain ⟨rest, happening, rfl, hgoes, hafter, hfails, hset, hsave⟩ := goes_of_step? hstep
  obtain ⟨hkept, hensures⟩ := hsound.ensures.goes calling_obeyed.procedures hgoes hfails
  have hcalls := calls_concat task.story happening
  refine ⟨⟨hsound.mailbox, hkept, hensures, ?_⟩, ?_, rfl, rfl, happening, hcalls, hafter⟩
  · intro flag hmem
    rw [hcalls, List.mem_append, Option.mem_toList] at hmem
    rcases hmem with hmem | hcall
    · exact hsound.saved flag hmem
    · have hnone : calls task.story = [] := by
        rw [hcall, Option.toList_some] at hcalls
        rcases Operation.calling_cases hsound.mailbox hkept with
          ⟨_, target, hbegins⟩ | ⟨_, target, previous, hbegins⟩
        · exact absurd (hcalls ▸ hbegins) Call.not_prefix_bare
        · exact Call.nil_of_prefix_shielded (hcalls ▸ hbegins)
      rw [hsave flag hcall, hflag, Task.flag, hnone]
      rfl
  · rw [hset, hflag, flag, flag, hcalls]
    cases Call.of? happening <;> simp [Call.flag]

/-- The next call takes the lock, or leaves it with who has it unless it gives it back. -/
theorem holds_step {happening : Happening}
    (hcalls : calls task'.story = calls task.story ++ (Call.of? happening).toList)
    (hlock : Call.of? happening = some (.acquire lock) ∨
      task.Holds lock ∧ Call.of? happening ≠ some (.release lock)) : task'.Holds lock := by
  rw [Holds, Call.holds, hcalls, List.foldl_append]
  change (List.foldl (Call.keeps lock) (Call.holds lock (calls task.story)) _) = true
  rcases hlock with hcall | ⟨hholds, hcall⟩
  · simp [hcall, Call.keeps]
  · rw [show Call.holds lock (calls task.story) = true from hholds]
    cases hof : Call.of? happening with
    | none => rfl
    | some call => cases call <;> simp_all [Call.keeps, Ne.symm]

end Task

/-- A lock that is held afterwards has just been taken, or was held and is not given back. -/
theorem World.After.held {world later : World} {happening : Happening} {lock : Lock}
    (hafter : world.After happening later) (hnodup : world.held.Nodup) (hlock : lock ∈ later.held) :
    Call.of? happening = some (.acquire lock) ∨
      lock ∈ world.held ∧ Call.of? happening ≠ some (.release lock) := by
  have hsame : later = world → (∀ freed, Call.of? happening ≠ some (.release freed)) →
      Call.of? happening = some (.acquire lock) ∨
        lock ∈ world.held ∧ Call.of? happening ≠ some (.release lock) := by
    rintro rfl hnot
    exact Or.inr ⟨hlock, hnot lock⟩
  cases happening with
  | acted action answer =>
      by_cases hnamed : action.lock? = some lock
      · cases action with
        | acquire taken => cases hnamed; exact Or.inl rfl
        | release freed =>
            cases hnamed
            obtain rfl := World.perform?_release hafter
            exact absurd hlock hnodup.not_mem_erase
        | _ => cases hnamed
      · refine Or.inr ⟨(World.perform?_mem_held hafter hnamed).mp hlock, ?_⟩
        cases action with
        | release freed => simpa [Call.of?, Action.lock?] using hnamed
        | _ => simp [Call.of?]
  | answered callback result =>
      apply hsame hafter
      intro freed
      cases callback with
      | mask => cases result <;> simp [Call.of?]
      | _ => simp [Call.of?]
  | _ => exact hsame hafter fun freed => by simp [Call.of?]

theorem World.After.nodup {world later : World} {happening : Happening}
    (hafter : world.After happening later) (hnodup : world.held.Nodup) : later.held.Nodup := by
  cases happening with
  | acted action answer => exact World.perform?_held_nodup hafter hnodup
  | _ => obtain rfl : later = world := hafter; exact hnodup

namespace Core

variable {core core' : Core} {world later : World} {signal : Signal} {task : Task} {lock : Lock}

/-- Whoever holds a lock has cleared the flag, or is a handler that has found it cleared. -/
theorem Sound.enabled_of_holds (hsound : core.Sound) (hcurrent : core.current = some task)
    (hholds : task.Holds lock) : core.enabled = false := by
  obtain ⟨htask, hflag, hinterrupt⟩ := hsound.current task hcurrent
  rw [hflag]
  rcases Operation.calling_cases htask.mailbox htask.kept with
    ⟨hhandler, target, hbegins⟩ | ⟨_, target, previous, hbegins⟩
  · have hfound := hsound.handler (hinterrupt hhandler)
    rw [hcurrent] at hfound
    rw [Task.flag, Call.flag_of_prefix_bare hbegins]
    exact hfound
  · exact Call.flag_of_prefix_shielded hbegins hholds

theorem sound_start {operation : Operation} {enabled : Bool} {interrupted : List (Option Task)}
    (hsound : (⟨enabled, none, interrupted⟩ : Core).Sound)
    (hsuits : operation.suits !interrupted.isEmpty) :
    (⟨enabled, some ⟨operation, operation.program, enabled, []⟩, interrupted⟩ : Core).Sound := by
  simp only [Operation.suits, Bool.and_eq_true, Bool.or_eq_true, Bool.not_eq_true'] at hsuits
  refine ⟨?_, hsound.handler, hsound.depth, hsound.interrupted⟩
  intro task htask
  cases htask
  refine ⟨⟨hsuits.1, Operation.calling_nil operation, calling_obeyed.operations operation,
    by simp [calls]⟩,
    rfl, ?_⟩
  intro hinterrupt hempty
  rcases hsuits.2 with hinside | houtside
  · simp_all
  · simp_all

theorem sound_step {enabled enabled' : Bool} {task' : Task} {interrupted : List (Option Task)}
    (hsound : (⟨enabled, some task, interrupted⟩ : Core).Sound)
    (hstep : task.step? world enabled = some (later, enabled', task')) :
    (⟨enabled', some task', interrupted⟩ : Core).Sound := by
  obtain ⟨htask, hflag, hinterrupt⟩ := hsound.current task rfl
  obtain ⟨htask', hflag', hsame, hfound, _⟩ := htask.step hflag hstep
  refine ⟨?_, ?_, hsound.depth, hsound.interrupted⟩
  · intro other hother
    cases hother
    exact ⟨htask', hflag', fun hhandler => hinterrupt (hsame ▸ hhandler)⟩
  · intro hinside
    exact hfound.trans (hsound.handler hinside)

theorem sound_finish {enabled : Bool} {interrupted : List (Option Task)}
    {result : Except Failure task.operation.Reply}
    (hsound : (⟨enabled, some task, interrupted⟩ : Core).Sound)
    (hdone : task.rest = .done result) : (⟨enabled, none, interrupted⟩ : Core).Sound := by
  obtain ⟨htask, hflag, _⟩ := hsound.current task rfl
  refine ⟨by simp, ?_, hsound.depth, hsound.interrupted⟩
  intro hinside
  exact hflag.trans ((htask.done hdone).2.1.trans (hsound.handler hinside))

/-- A handler comes in only where the flag is set, so none is in already. -/
theorem sound_interrupt {current : Option Task} {interrupted : List (Option Task)}
    (hsound : (⟨true, current, interrupted⟩ : Core).Sound) :
    (⟨false, none, current :: interrupted⟩ : Core).Sound := by
  have hempty : interrupted = [] := by
    by_contra hinside
    have hfound := hsound.handler hinside
    cases current with
    | none => cases hfound
    | some task =>
        obtain ⟨htask, hflag, _⟩ := hsound.current task rfl
        rw [htask.flag_of_found hfound] at hflag
        cases hflag
  subst hempty
  refine ⟨by simp, fun _ => rfl, Nat.le_refl 1, ?_⟩
  intro task hmem
  obtain rfl := List.mem_singleton.mp hmem
  obtain ⟨htask, hflag, hinterrupt⟩ := hsound.current task rfl
  refine ⟨htask, hflag.symm, ?_⟩
  by_contra hhandler
  exact hinterrupt (by simpa using hhandler) rfl

theorem sound_leave {enabled : Bool} {below : Option Task} {interrupted : List (Option Task)}
    (hsound : (⟨enabled, none, below :: interrupted⟩ : Core).Sound) :
    (⟨true, below, interrupted⟩ : Core).Sound := by
  have hempty : interrupted = [] := by
    have hdepth := hsound.depth
    simpa using hdepth
  subst hempty
  refine ⟨?_, fun hinside => absurd rfl hinside, Nat.zero_le 1, by simp⟩
  rintro task rfl
  obtain ⟨htask, hflag, hinterrupt⟩ := hsound.interrupted task List.mem_cons_self
  refine ⟨htask, hflag.symm, fun hhandler => ?_⟩
  rw [hinterrupt] at hhandler
  cases hhandler

theorem Sound.moves (hsound : core.Sound) (hmoves : core.Moves world later core') :
    core'.Sound := by
  cases hmoves with
  | start hsuits => exact sound_start hsound hsuits
  | step hstep => exact sound_step hsound hstep
  | finish hdone => exact sound_finish hsound hdone
  | interrupt current interrupted => exact sound_interrupt hsound
  | leave enabled below interrupted => exact sound_leave hsound

def Holds (core : Core) (lock : Lock) : Prop :=
  ∃ task, core.current = some task ∧ task.Holds lock

/-- A lock that is held after a move is held by the core that moved, or was held by another. -/
theorem Sound.held (hsound : core.Sound) (hmoves : core.Moves world later core')
    (hnodup : world.held.Nodup) (hlock : lock ∈ later.held) :
    core'.Holds lock ∨ lock ∈ world.held ∧ ¬ core.Holds lock := by
  cases hmoves with
  | start hsuits => exact Or.inr ⟨hlock, by simp [Holds]⟩
  | @step enabled enabled' task task' interrupted _ hstep =>
      obtain ⟨htask, hflag, _⟩ := hsound.current task rfl
      obtain ⟨_, _, _, _, happening, hcalls, hafter⟩ := htask.step hflag hstep
      rcases hafter.held hnodup hlock with hcall | ⟨hheld, hcall⟩
      · exact Or.inl ⟨task', rfl, Task.holds_step hcalls (Or.inl hcall)⟩
      · by_cases hholds : task.Holds lock
        · exact Or.inl ⟨task', rfl, Task.holds_step hcalls (Or.inr ⟨hholds, hcall⟩)⟩
        · refine Or.inr ⟨hheld, ?_⟩
          rintro ⟨other, hother, hother'⟩
          cases hother
          exact hholds hother'
  | @finish enabled task interrupted result hdone =>
      refine Or.inr ⟨hlock, ?_⟩
      rintro ⟨other, hother, hholds⟩
      cases hother
      exact ((hsound.current task rfl).1.done hdone).2.2 lock hholds
  | interrupt current interrupted =>
      refine Or.inr ⟨hlock, ?_⟩
      rintro ⟨task, htask, hholds⟩
      have henabled := hsound.enabled_of_holds htask hholds
      cases henabled
  | leave enabled below interrupted => exact Or.inr ⟨hlock, by simp [Holds]⟩

theorem Moves.nodup (hsound : core.Sound) (hmoves : core.Moves world later core')
    (hnodup : world.held.Nodup) : later.held.Nodup := by
  cases hmoves with
  | @step enabled enabled' task task' interrupted _ hstep =>
      obtain ⟨htask, hflag, _⟩ := hsound.current task rfl
      obtain ⟨_, _, _, _, happening, _, hafter⟩ := htask.step hflag hstep
      exact hafter.nodup hnodup
  | _ => exact hnodup

/-- No operation that a handler has come upon holds a lock. -/
theorem Sound.not_holds_of_interrupted (hsound : core.Sound) (htask : some task ∈ core.interrupted)
    (lock : Lock) : ¬ task.Holds lock := by
  intro hholds
  obtain ⟨htask, hflag, hinterrupt⟩ := hsound.interrupted task htask
  rcases Operation.calling_cases htask.mailbox htask.kept with
    ⟨hhandler, _⟩ | ⟨_, target, previous, hbegins⟩
  · rw [hinterrupt] at hhandler
    cases hhandler
  · rw [Task.flag, Call.flag_of_prefix_shielded hbegins hholds] at hflag
    cases hflag

end Core

namespace Cores

variable {state state' : Cores}

theorem sound_idle (mailboxes : Array Mailbox) (flags : List Bool) :
    (idle mailboxes flags).Sound where
  nodup := List.nodup_nil
  held _ hlock := absurd hlock List.not_mem_nil
  cores index core hcore := by
    simp only [idle, List.getElem?_toArray, List.getElem?_map, Option.map_eq_some_iff] at hcore
    obtain ⟨flag, _, rfl⟩ := hcore
    exact ⟨by simp, fun hinside => absurd rfl hinside, Nat.zero_le 1, by simp⟩

theorem Sound.move {index : Nat} {signal : Signal} (hsound : state.Sound)
    (hmove : state.move? index signal = some state') : state'.Sound := by
  obtain ⟨core, core', hcore, hmoves, hcores⟩ := moves_of_move? hmove
  have hold := hsound.cores index core hcore
  have hself : state'.cores[index]? = some core' := by
    rw [hcores]
    exact World.getElem?_setIfInBounds_self hcore core'
  have hothers : ∀ other ≠ index, state'.cores[other]? = state.cores[other]? := by
    intro other hother
    rw [hcores, Array.getElem?_setIfInBounds, if_neg (Ne.symm hother)]
  refine ⟨hmoves.nodup hold hsound.nodup, ?_, ?_⟩
  · intro other found hfound
    by_cases hother : other = index
    · subst hother
      rw [hself] at hfound
      cases hfound
      exact hold.moves hmoves
    · rw [hothers other hother] at hfound
      exact hsound.cores other found hfound
  · intro lock hlock
    rcases hold.held hmoves hsound.nodup hlock with ⟨task, hcurrent, hholds⟩ | ⟨hheld, hnot⟩
    · exact ⟨index, core', task, hself, hcurrent, hholds⟩
    · obtain ⟨other, found, task, hfound, hcurrent, hholds⟩ := hsound.held lock hheld
      have hother : other ≠ index := by
        rintro rfl
        rw [hcore] at hfound
        cases hfound
        exact hnot ⟨task, hcurrent, hholds⟩
      exact ⟨other, found, task, (hothers other hother).trans hfound, hcurrent, hholds⟩

theorem Sound.run {signals : List (Nat × Signal)} (hsound : state.Sound)
    (hrun : state.run? signals = some state') : state'.Sound := by
  induction signals generalizing state with
  | nil =>
      cases hrun
      exact hsound
  | cons head signals ih =>
      simp only [run?, Option.bind_eq_some_iff] at hrun
      obtain ⟨next, hmove, hrun⟩ := hrun
      exact ih (hsound.move hmove) hrun

/-- Interrupts are masked wherever it matters, and nowhere else. -/
structure Masked (state : Cores) : Prop where
  /-- A core that holds the lock of a queue has its flag cleared, -/
  cleared : ∀ {index : Nat} {core task lock}, state.cores[index]? = some core →
    core.current = some task → task.Holds lock → core.enabled = false
  /-- and no handler has come upon its holder. -/
  apart : ∀ {index : Nat} {core task}, state.cores[index]? = some core →
    some task ∈ core.interrupted → ∀ lock, ¬ task.Holds lock
  /-- Every operation makes its calls in order, with the flag that it has found; -/
  calling : ∀ {index : Nat} {core task}, state.cores[index]? = some core →
    core.current = some task ∨ some task ∈ core.interrupted →
      task.operation.Calling task.story ∧ ∀ flag, .save flag ∈ calls task.story → flag = task.found
  /-- it has made all of them when it returns, whatever it returns, and the flag is as before. -/
  called : ∀ {index : Nat} {core task result}, state.cores[index]? = some core →
    core.current = some task → task.rest = .done result →
      task.operation.Called task.story ∧ core.enabled = task.found
  /-- A lock that a core has to wait for is held by what runs on another core. -/
  waits : ∀ {index : Nat} {core task lock next}, state.cores[index]? = some core →
    core.current = some task → task.rest = .act (.acquire lock) next →
      lock ∈ state.world.held → ∃ (other : Nat) (owner : Core), other ≠ index ∧
        state.cores[other]? = some owner ∧ owner.Holds lock

/-- Interrupts are masked wherever it matters, in every run of any number of cores. -/
theorem masked_of_run? {mailboxes : Array Mailbox} {flags : List Bool}
    {signals : List (Nat × Signal)}
    (hrun : (idle mailboxes flags).run? signals = some state) : state.Masked := by
  have hsound := (sound_idle mailboxes flags).run hrun
  constructor
  · intro index core task lock hcore hcurrent hholds
    exact (hsound.cores index core hcore).enabled_of_holds hcurrent hholds
  · intro index core task hcore htask
    exact (hsound.cores index core hcore).not_holds_of_interrupted htask
  · rintro index core task hcore (hcurrent | hinterrupted)
    · obtain ⟨htask, _⟩ := (hsound.cores index core hcore).current task hcurrent
      exact ⟨htask.kept, htask.saved⟩
    · obtain ⟨htask, _⟩ := (hsound.cores index core hcore).interrupted task hinterrupted
      exact ⟨htask.kept, htask.saved⟩
  · intro index core task result hcore hcurrent hdone
    obtain ⟨htask, hflag, _⟩ := (hsound.cores index core hcore).current task hcurrent
    obtain ⟨hcalled, hfound, _⟩ := htask.done hdone
    exact ⟨hcalled, hflag.trans hfound⟩
  · intro index core task lock next hcore hcurrent hacquire hheld
    obtain ⟨other, owner, holder, howner, hholder, hholds⟩ := hsound.held lock hheld
    refine ⟨other, owner, ?_, howner, holder, hholder, hholds⟩
    rintro rfl
    rw [hcore] at howner
    cases howner
    rw [hcurrent] at hholder
    cases hholder
    obtain ⟨htask, _⟩ := (hsound.cores other core hcore).current task hcurrent
    exact htask.not_holds hacquire hholds

/-- A handler comes upon a push that has yet to clear the flag, and leaves it to take the lock. -/
def handlerBeforeMask : List (Nat × Signal) :=
  [(0, .start (.push ⟨0⟩ (.notification .timeoutEvent 1))), (0, .interrupt),
   (0, .start (.pushFromInterrupt ⟨0⟩ (.notification .irqRaise 2))), (0, .step), (0, .step),
   (0, .step), (0, .step), (0, .finish), (0, .leave), (0, .step), (0, .step)]

theorem masked_handlerBeforeMask : ∃ state,
    (idle #[.new 1] [true]).run? handlerBeforeMask = some state ∧
    (∃ core task, state.cores[0]? = some core ∧ core.current = some task ∧
      task.Holds (.queue ⟨0⟩)) ∧ state.Masked := by
  have hholder : (((idle #[.new 1] [true]).run? handlerBeforeMask).bind fun state =>
      state.cores[0]?.bind fun core => core.current.map fun task =>
        Call.holds (.queue ⟨0⟩) (calls task.story)) = some true := by rfl
  simp only [Option.bind_eq_some_iff, Option.map_eq_some_iff] at hholder
  obtain ⟨state, hrun, core, hcore, task, htask, hholds⟩ := hholder
  exact ⟨state, hrun, ⟨core, task, hcore, htask, hholds⟩, masked_of_run? hrun⟩

end Cores

end CoreEngines
