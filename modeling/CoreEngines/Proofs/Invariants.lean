import CoreEngines.Proofs.Discipline
import CoreEngines.Proofs.Journal
import Mathlib.Data.List.Forall2

/-!
Invariants of runs.  When all operations keep to a discipline, a property of the whole state that
every single step keeps holds in all runs, and every operation, running or returned, has done only
what the discipline allows.
-/

namespace CoreEngines

namespace Discipline

variable {σ : Type} (discipline : Discipline σ)

def after (operation : Operation) (steps : List Happening) : σ :=
  steps.foldl discipline.observe (discipline.start operation)

def Keeps (state : σ) : List Happening → Prop
  | [] => True
  | happening :: steps =>
      discipline.Allows state happening ∧ Keeps (discipline.observe state happening) steps

/-- Where an operation stands, once it has started and until it returns. -/
def track : Option σ → Happening → Option σ
  | _, .started operation => some (discipline.start operation)
  | _, .finished _ _ => none
  | state, happening => state.map (discipline.observe · happening)

/-- Where the operations of a journal stand, by their numbers. -/
def standing (journal : Journal) (number : Nat) : Option σ :=
  (journal.own number).foldl discipline.track none

/-- A running operation has kept to the discipline and will do so. -/
def Accounts (journal : Journal) (number : Nat) (activation : Activation) : Prop :=
  ∃ steps, journal.own number = .started activation.operation :: steps ∧
    (∀ happening ∈ steps, happening.isStep) ∧
    discipline.Keeps (discipline.start activation.operation) steps ∧
    activation.rest.Ensures discipline (discipline.after activation.operation steps)
      (discipline.Returns activation.operation)

/-- An operation has kept to the discipline until it returned. -/
def Closed (journal : Journal) (number : Nat) : Prop :=
  ∃ (operation : Operation) (steps : List Happening) (result : Except Failure operation.Reply),
    journal.own number = .started operation :: (steps ++ [Happening.finished operation result]) ∧
      (∀ happening ∈ steps, happening.isStep) ∧
      discipline.Keeps (discipline.start operation) steps ∧
      discipline.Returns operation (discipline.after operation steps) result

/-- Every operation of the journal is running or has returned, and kept to the discipline. -/
structure Account (journal : Journal) (flows : Nat → Flow) : Prop where
  sound : journal.Sound
  running : ∀ index, List.Forall₂ (discipline.Accounts journal) (journal.running index)
    (flows index)
  closed : ∀ number < journal.started,
    (∃ index, number ∈ journal.running index) ∨ discipline.Closed journal number

/-- A property of the history, the world and the standing of all operations that holds at first
and outlasts every step that keeps to the discipline. -/
structure Upholds (start : World) (Holds : History → World → (Nat → Option σ) → Prop) :
    Prop where
  idle : Holds [] start fun _ => none
  start : ∀ {history world states} (index number : Nat) (operation : Operation),
    Holds history world states → states number = none →
      Holds (history ++ [(index, .started operation)]) world
        (Function.update states number (some (discipline.start operation)))
  step : ∀ {history world states later state happening} (index number : Nat),
    Holds history world states → states number = some state → happening.isStep →
      world.After happening later →
        discipline.Presumes state happening ∧
          (discipline.Allows state happening →
            Holds (history ++ [(index, happening)]) later
              (Function.update states number (some (discipline.observe state happening))))
  finish : ∀ {history world states state} (index number : Nat) (operation : Operation)
      (result : Except Failure operation.Reply),
    Holds history world states → states number = some state →
      discipline.Returns operation state result →
        Holds (history ++ [(index, .finished operation result)]) world
          (Function.update states number none)

variable {discipline}

theorem after_concat (operation : Operation) (steps : List Happening) (happening : Happening) :
    discipline.after operation (steps ++ [happening]) =
      discipline.observe (discipline.after operation steps) happening := by
  simp [after]

theorem keeps_concat (state : σ) (steps : List Happening) (happening : Happening) :
    discipline.Keeps state (steps ++ [happening]) ↔
      discipline.Keeps state steps ∧
        discipline.Allows (steps.foldl discipline.observe state) happening := by
  induction steps generalizing state with
  | nil => simp [Keeps]
  | cons first steps ih => simp [Keeps, ih, and_assoc]

theorem track_some {happening : Happening} (hstep : happening.isStep) (state : σ) :
    discipline.track (some state) happening = some (discipline.observe state happening) := by
  cases happening with
  | started operation => cases hstep
  | finished operation result => cases hstep
  | acted action answer => rfl
  | reported event => rfl
  | called procedure => rfl
  | chose choice => rfl
  | answered callback result => rfl

theorem foldl_track (state : σ) {steps : List Happening}
    (hsteps : ∀ happening ∈ steps, happening.isStep) :
    steps.foldl discipline.track (some state) =
      some (steps.foldl discipline.observe state) := by
  induction steps generalizing state with
  | nil => rfl
  | cons happening steps ih =>
      rw [List.foldl_cons, List.foldl_cons, track_some (hsteps happening List.mem_cons_self)]
      exact ih _ fun other hother => hsteps other (List.mem_cons_of_mem happening hother)

theorem standing_eq_none {journal : Journal} (hsound : journal.Sound) {number : Nat}
    (hnumber : journal.started ≤ number) : discipline.standing journal number = none := by
  rw [standing, Journal.own_eq_nil hsound hnumber]
  rfl

theorem standing_of_own {journal : Journal} {number : Nat} {operation : Operation}
    {steps : List Happening} (hown : journal.own number = .started operation :: steps)
    (hsteps : ∀ happening ∈ steps, happening.isStep) :
    discipline.standing journal number = some (discipline.after operation steps) := by
  rw [standing, hown]
  exact foldl_track (discipline.start operation) hsteps

theorem Accounts.standing {journal : Journal} {number : Nat} {activation : Activation}
    (haccounts : discipline.Accounts journal number activation) :
    ∃ state, discipline.standing journal number = some state ∧
      activation.rest.Ensures discipline state (discipline.Returns activation.operation) := by
  obtain ⟨steps, hown, hsteps, _, hensures⟩ := haccounts
  exact ⟨_, standing_of_own hown hsteps, hensures⟩

theorem Closed.standing {journal : Journal} {number : Nat}
    (hclosed : discipline.Closed journal number) : discipline.standing journal number = none := by
  obtain ⟨operation, steps, result, hown, _⟩ := hclosed
  rw [Discipline.standing, hown, ← List.cons_append, List.foldl_append]
  rfl

theorem standing_update {journal journal' : Journal} {number : Nat} {story : List Happening}
    (hown : journal'.own = Function.update journal.own number story) :
    discipline.standing journal' =
      Function.update (discipline.standing journal) number
        (story.foldl discipline.track none) := by
  funext other
  by_cases hother : other = number
  · subst hother
    simp [standing, hown]
  · simp [standing, hown, hother]

/-- What is said about some operations stays true when the story of another one goes on. -/
theorem accounts_update {journal journal' : Journal} {number : Nat} {story : List Happening}
    (hown : journal'.own = Function.update journal.own number story) {numbers : List Nat}
    {flow : Flow} (haccounts : List.Forall₂ (discipline.Accounts journal) numbers flow)
    (hnumber : number ∉ numbers) :
    List.Forall₂ (discipline.Accounts journal') numbers flow := by
  induction haccounts with
  | nil => exact .nil
  | cons hhead htail ih =>
      rw [List.mem_cons, not_or] at hnumber
      refine .cons ?_ (ih hnumber.2)
      rwa [Accounts, hown, Function.update_of_ne (Ne.symm hnumber.1)]

theorem closed_update {journal journal' : Journal} {number other : Nat}
    {story : List Happening} (hown : journal'.own = Function.update journal.own number story)
    (hclosed : discipline.Closed journal other) (hother : other ≠ number) :
    discipline.Closed journal' other := by
  rwa [Closed, hown, Function.update_of_ne hother]

theorem account_idle : discipline.Account .blank fun _ => [] where
  sound := Journal.blank_sound
  running _ := .nil
  closed number hnumber := absurd hnumber (Nat.not_lt_zero number)

end Discipline

namespace Discipline.Account

variable {σ : Type} {discipline : Discipline σ} {journal : Journal} {flows : Nat → Flow}
  {index : Nat}

/-- The innermost operation of a flow, and its number. -/
theorem top {activation : Activation} {flow : Flow} (haccount : discipline.Account journal flows)
    (hflow : flows index = activation :: flow) :
    ∃ number below, journal.running index = number :: below ∧
      discipline.Accounts journal number activation ∧
      List.Forall₂ (discipline.Accounts journal) below flow := by
  have hrunning := haccount.running index
  rw [hflow] at hrunning
  cases hnumbers : journal.running index with
  | nil => rw [hnumbers] at hrunning; cases hrunning
  | cons number below =>
      rw [hnumbers] at hrunning
      cases hrunning with
      | cons hhead htail => exact ⟨number, below, rfl, hhead, htail⟩

theorem mem_running {number : Nat} {state : σ} (haccount : discipline.Account journal flows)
    (hstate : discipline.standing journal number = some state) :
    ∃ index, number ∈ journal.running index := by
  by_cases hnumber : number < journal.started
  · rcases haccount.closed number hnumber with hrunning | hclosed
    · exact hrunning
    · rw [hclosed.standing] at hstate
      cases hstate
  · rw [standing_eq_none haccount.sound (by omega)] at hstate
    cases hstate

/-- The account of a journal in which the story of one operation has gone on, and with it the
list of the operations that run in its flow. -/
theorem update {journal' : Journal} {number : Nat} {story : List Happening} {numbers : List Nat}
    {flow : Flow} (haccount : discipline.Account journal flows) (hsound : journal'.Sound)
    (hown : journal'.own = Function.update journal.own number story)
    (hrunning : journal'.running = Function.update journal.running index numbers)
    (hothers : ∀ other ≠ index, number ∉ journal.running other)
    (hflow : List.Forall₂ (discipline.Accounts journal') numbers flow)
    (hstarted : ∀ other < journal'.started, other ≠ number → other < journal.started)
    (hkept : ∀ other ∈ journal.running index, other ≠ number → other ∈ numbers)
    (hnumber : number ∈ numbers ∨ discipline.Closed journal' number) :
    discipline.Account journal' (Function.update flows index flow) := by
  refine ⟨hsound, ?_, ?_⟩
  · intro other
    by_cases hother : other = index
    · subst hother
      rwa [hrunning, Function.update_self, Function.update_self]
    · rw [hrunning, Function.update_of_ne hother, Function.update_of_ne hother]
      exact accounts_update hown (haccount.running other) (hothers other hother)
  · intro other hother
    by_cases hsame : other = number
    · subst hsame
      refine hnumber.imp_left fun hmem => ⟨index, ?_⟩
      rwa [hrunning, Function.update_self]
    · rcases haccount.closed other (hstarted other hother hsame) with ⟨place, hmem⟩ | hclosed
      · refine Or.inl ⟨place, ?_⟩
        by_cases hplace : place = index
        · subst hplace
          rw [hrunning, Function.update_self]
          exact hkept other hmem hsame
        · rwa [hrunning, Function.update_of_ne hplace]
      · exact Or.inr (closed_update hown hclosed hsame)

theorem start (haccount : discipline.Account journal flows) (hobeyed : discipline.Obeyed)
    (operation : Operation) :
    discipline.Account (journal.add (index, .started operation))
      (Function.update flows index (.start operation :: flows index)) := by
  have hown : (journal.add (index, .started operation)).own =
      Function.update journal.own journal.started [.started operation] :=
    Journal.own_add_started haccount.sound operation
  have hfresh : ∀ other, journal.started ∉ journal.running other := fun other hmem =>
    Nat.lt_irrefl _ (haccount.sound.numbered hmem)
  refine haccount.update (Journal.add_started_sound haccount.sound operation) hown
    (Journal.running_add_started operation) (fun other _ => hfresh other) ?_ ?_ ?_
    (Or.inl List.mem_cons_self)
  · refine .cons ⟨[], ?_, by simp, trivial, hobeyed.operations operation⟩
      (accounts_update hown (haccount.running index) (hfresh index))
    rw [hown, Function.update_self]
    rfl
  · intro other hother hne
    exact Nat.lt_of_le_of_ne (Nat.le_of_lt_succ hother) hne
  · intro other hmem _
    exact List.mem_cons_of_mem _ hmem

theorem top_not_mem {number : Nat} {below : List Nat}
    (haccount : discipline.Account journal flows)
    (hrunning : journal.running index = number :: below) :
    number ∉ below ∧ ∀ other ≠ index, number ∉ journal.running other := by
  have htop : number ∈ journal.running index := by
    rw [hrunning]
    exact List.mem_cons_self
  have hnodup := haccount.sound.nodup index
  rw [hrunning, List.nodup_cons] at hnodup
  exact ⟨hnodup.1, fun other hother hmem => hother (haccount.sound.apart hmem htop)⟩

theorem step {operation : Operation} {rest rest' : Program operation.Reply}
    {happening : Happening} {number : Nat} {numbers : List Nat} {below : Flow} {state : σ}
    (haccount : discipline.Account journal flows) (hobeyed : discipline.Obeyed)
    (hrunning : journal.running index = number :: numbers)
    (hflow : flows index = ⟨operation, rest⟩ :: below)
    (hstate : discipline.standing journal number = some state)
    (hpresumes : discipline.Presumes state happening) (hgoes : rest.Goes happening rest') :
    discipline.Allows state happening ∧
      discipline.Account (journal.add (index, happening))
        (Function.update flows index (⟨operation, rest'⟩ :: below)) := by
  obtain ⟨_, _, hnumbers, ⟨steps, hown, hsteps, hkeeps, hensures⟩, hbelow⟩ := haccount.top hflow
  obtain ⟨rfl, rfl⟩ := List.cons.inj (hrunning.symm.trans hnumbers)
  obtain rfl : state = discipline.after operation steps :=
    Option.some.inj (hstate.symm.trans (standing_of_own hown hsteps))
  obtain ⟨hallows, hensures⟩ := hensures.goes hobeyed.procedures hgoes hpresumes
  have hown' := Journal.own_add_step hgoes.isStep hrunning
  obtain ⟨hnot, hothers⟩ := haccount.top_not_mem hrunning
  have hrunning' : (journal.add (index, happening)).running =
      Function.update journal.running index (number :: numbers) := by
    rw [Journal.running_add_step hgoes.isStep hrunning, ← hrunning, Function.update_eq_self]
  refine ⟨hallows, haccount.update (Journal.add_step_sound haccount.sound hgoes.isStep hrunning)
    hown' hrunning' hothers ?_ ?_ ?_ (Or.inl List.mem_cons_self)⟩
  · refine .cons ⟨steps ++ [happening], ?_, ?_, ?_, ?_⟩ (accounts_update hown' hbelow hnot)
    · rw [hown', Function.update_self, hown]
      rfl
    · intro other hother
      rcases List.mem_append.mp hother with hother | hother
      · exact hsteps other hother
      · rw [List.mem_singleton.mp hother]
        exact hgoes.isStep
    · exact (keeps_concat _ _ _).mpr ⟨hkeeps, hallows⟩
    · rw [after_concat]
      exact hensures
  · intro other hother _
    rwa [Journal.started_add_step hgoes.isStep hrunning] at hother
  · intro other hmem _
    rwa [← hrunning]

theorem finish {operation : Operation} {result : Except Failure operation.Reply} {number : Nat}
    {numbers : List Nat} {below : Flow} {state : σ}
    (haccount : discipline.Account journal flows)
    (hrunning : journal.running index = number :: numbers)
    (hflow : flows index = ⟨operation, .done result⟩ :: below)
    (hstate : discipline.standing journal number = some state) :
    discipline.Returns operation state result ∧
      discipline.Account (journal.add (index, .finished operation result))
        (Function.update flows index below) := by
  obtain ⟨_, _, hnumbers, ⟨steps, hown, hsteps, hkeeps, hreturns⟩, hbelow⟩ := haccount.top hflow
  obtain ⟨rfl, rfl⟩ := List.cons.inj (hrunning.symm.trans hnumbers)
  obtain rfl : state = discipline.after operation steps :=
    Option.some.inj (hstate.symm.trans (standing_of_own hown hsteps))
  have hown' := Journal.own_add_finished result hrunning
  obtain ⟨hnot, hothers⟩ := haccount.top_not_mem hrunning
  refine ⟨hreturns, haccount.update (Journal.add_finished_sound haccount.sound result hrunning)
    hown' (Journal.running_add_finished result hrunning) hothers
    (accounts_update hown' hbelow hnot) ?_ ?_ (Or.inr ⟨operation, steps, result, ?_, hsteps,
      hkeeps, hreturns⟩)⟩
  · intro other hother _
    rwa [Journal.add_finished result hrunning] at hother
  · intro other hmem hne
    rw [hrunning] at hmem
    exact (List.mem_cons.mp hmem).resolve_left hne
  · rw [hown', Function.update_self, hown]
    rfl

/-- The story of every operation: it kept to the discipline, and until it returned if it did. -/
theorem story {number : Nat} (haccount : discipline.Account journal flows)
    (hnumber : number < journal.started) :
    ∃ (operation : Operation) (steps : List Happening),
      (∀ happening ∈ steps, happening.isStep) ∧
        discipline.Keeps (discipline.start operation) steps ∧
          (journal.own number = .started operation :: steps ∨
            ∃ result : Except Failure operation.Reply,
              journal.own number =
                .started operation :: (steps ++ [Happening.finished operation result]) ∧
                discipline.Returns operation (discipline.after operation steps) result) := by
  rcases haccount.closed number hnumber with ⟨index, hmem⟩ | hclosed
  · have hrunning := haccount.running index
    generalize journal.running index = numbers at hmem hrunning
    generalize flows index = flow at hrunning
    induction hrunning with
    | nil => cases hmem
    | cons hhead htail ih =>
        rcases List.mem_cons.mp hmem with rfl | hmem
        · obtain ⟨steps, hown, hsteps, hkeeps, _⟩ := hhead
          exact ⟨_, steps, hsteps, hkeeps, Or.inl hown⟩
        · exact ih hmem
  · obtain ⟨operation, steps, result, hown, hsteps, hkeeps, hreturns⟩ := hclosed
    exact ⟨operation, steps, hsteps, hkeeps, Or.inr ⟨result, hown, hreturns⟩⟩

/-- What an operation of the journal has returned is as the discipline says. -/
theorem returned {number : Nat} {operation : Operation} {story : List Happening}
    {result : Except Failure operation.Reply} (haccount : discipline.Account journal flows)
    (hown : journal.own number = .started operation :: story)
    (hresult : .finished operation result ∈ story) :
    ∃ steps, story = steps ++ [Happening.finished operation result] ∧
      (∀ happening ∈ steps, happening.isStep) ∧
        discipline.Returns operation (discipline.after operation steps) result := by
  obtain ⟨other, steps, hsteps, _, hend⟩ :=
    haccount.story (Journal.lt_started_of_own haccount.sound hown)
  rcases hend with hown' | ⟨result', hown', hreturns⟩
  · cases hown.symm.trans hown'
    cases hsteps _ hresult
  · cases hown.symm.trans hown'
    rcases List.mem_append.mp hresult with hmem | hmem
    · cases hsteps _ hmem
    · cases List.mem_singleton.mp hmem
      exact ⟨steps, rfl, hsteps, hreturns⟩

/-- Where an operation stands is where its own story has led it. -/
theorem story_of_standing {number : Nat} {state : σ} (haccount : discipline.Account journal flows)
    (hstate : discipline.standing journal number = some state) :
    ∃ operation steps, journal.own number = .started operation :: steps ∧
      (∀ happening ∈ steps, happening.isStep) ∧
        discipline.Keeps (discipline.start operation) steps ∧
          state = discipline.after operation steps := by
  have hnumber : number < journal.started := by
    by_contra hnot
    rw [standing_eq_none haccount.sound (Nat.le_of_not_lt hnot)] at hstate
    cases hstate
  obtain ⟨operation, steps, hsteps, hkeeps, hown | ⟨result, hown, _⟩⟩ := haccount.story hnumber
  · exact ⟨operation, steps, hown, hsteps, hkeeps,
      Option.some.inj (hstate.symm.trans (standing_of_own hown hsteps))⟩
  · rw [standing, hown, ← List.cons_append, List.foldl_append] at hstate
    cases hstate

end Discipline.Account

/-- The induction over runs: what every step keeps holds in every run, and every operation keeps
to the discipline. -/
theorem Runs.account {σ : Type} {discipline : Discipline σ} {start world : World}
    {history : History} {flows : Nat → Flow}
    {Holds : History → World → (Nat → Option σ) → Prop} (hobeyed : discipline.Obeyed)
    (hupholds : discipline.Upholds start Holds) (hrun : Runs start history world flows) :
    discipline.Account (.ofHistory history) flows ∧
      Holds history world (discipline.standing (.ofHistory history)) := by
  induction hrun with
  | idle => exact ⟨Discipline.account_idle, hupholds.idle⟩
  | @move history world later flows index happening flow hrun hmove ih =>
      obtain ⟨haccount, hholds⟩ := ih
      rw [Journal.ofHistory_concat]
      generalize hflow : flows index = old at hmove
      cases hmove with
      | start operation =>
          have hnone : discipline.standing (.ofHistory history)
              (Journal.ofHistory history).started = none :=
            Discipline.standing_eq_none haccount.sound (Nat.le_refl _)
          rw [Discipline.standing_update (Journal.own_add_started haccount.sound operation)]
          rw [← hflow]
          exact ⟨haccount.start hobeyed operation,
            hupholds.start index _ operation hholds hnone⟩
      | @step operation rest rest' happening later below hgoes hafter =>
          obtain ⟨number, numbers, hrunning, haccounts, _⟩ := haccount.top hflow
          obtain ⟨state, hstate, _⟩ := haccounts.standing
          obtain ⟨hpresumes, hholds⟩ :=
            hupholds.step index number hholds hstate hgoes.isStep hafter
          obtain ⟨hallows, haccount⟩ :=
            haccount.step hobeyed hrunning hflow hstate hpresumes hgoes
          refine ⟨haccount, ?_⟩
          rw [Discipline.standing_update (Journal.own_add_step hgoes.isStep hrunning),
            List.foldl_append]
          change Holds _ _ (Function.update _ _
            (discipline.track (discipline.standing (.ofHistory history) number) happening))
          rw [hstate, Discipline.track_some hgoes.isStep]
          exact hholds hallows
      | finish operation result below =>
          obtain ⟨number, numbers, hrunning, haccounts, _⟩ := haccount.top hflow
          obtain ⟨state, hstate, _⟩ := haccounts.standing
          obtain ⟨hreturns, haccount⟩ := haccount.finish hrunning hflow hstate
          refine ⟨haccount, ?_⟩
          rw [Discipline.standing_update (Journal.own_add_finished result hrunning),
            List.foldl_append]
          exact hupholds.finish index number operation result hholds hstate hreturns

/-- Whatever the innermost operation of a flow can do next is allowed where it stands. -/
theorem Runs.allows {σ : Type} {discipline : Discipline σ} {start world later : World}
    {history : History} {flows : Nat → Flow} {index : Nat} {happening : Happening} {flow : Flow}
    {Holds : History → World → (Nat → Option σ) → Prop} (hobeyed : discipline.Obeyed)
    (hupholds : discipline.Upholds start Holds) (hrun : Runs start history world flows)
    (hmove : (flows index).Moves world happening later flow) (hstep : happening.isStep) :
    ∃ number below operation steps,
      (Journal.ofHistory history).running index = number :: below ∧
        (Journal.ofHistory history).own number = .started operation :: steps ∧
          (∃ rest top, flows index = ⟨operation, rest⟩ :: top) ∧
            discipline.standing (.ofHistory history) number =
                some (discipline.after operation steps) ∧
              discipline.Allows (discipline.after operation steps) happening := by
  obtain ⟨haccount, hholds⟩ := hrun.account hobeyed hupholds
  generalize hflow : flows index = old at hmove
  cases hmove with
  | start operation => cases hstep
  | finish operation result below => cases hstep
  | @step operation rest rest' happening later below hgoes hafter =>
      obtain ⟨number, numbers, hrunning, haccounts, _⟩ := haccount.top hflow
      obtain ⟨steps, hown, hsteps, _, hensures⟩ := haccounts
      have hstate : discipline.standing (.ofHistory history) number =
          some (discipline.after operation steps) :=
        Discipline.standing_of_own hown hsteps
      obtain ⟨hpresumes, _⟩ := hupholds.step index number hholds hstate hgoes.isStep hafter
      obtain ⟨hallows, _⟩ := hensures.goes hobeyed.procedures hgoes hpresumes
      exact ⟨number, numbers, operation, steps, hrunning, hown, ⟨rest, below, rfl⟩, hstate,
        hallows⟩

/-- The operation of this number is in progress, and this is what is left of it. -/
def Machine.InProgress (machine : Machine) (history : History) (number : Nat)
    (activation : Activation) : Prop :=
  ∃ index, (number, activation) ∈
    ((Journal.ofHistory history).running index).zip (machine.flow index)

theorem Machine.InProgress.accounts {σ : Type} {discipline : Discipline σ} {machine : Machine}
    {history : History} {number : Nat} {activation : Activation}
    (hprogress : machine.InProgress history number activation)
    (haccount : discipline.Account (.ofHistory history) machine.flow) :
    discipline.Accounts (.ofHistory history) number activation := by
  obtain ⟨index, hmem⟩ := hprogress
  exact (List.forall₂_iff_zip.mp (haccount.running index)).2 hmem

end CoreEngines
