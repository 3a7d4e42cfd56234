import CoreEngines.Proofs.Storage.Recall

/-!
The end of the bootstrap storage.  From the publication of a context on, only calls use it that had
found no context before; and where all calls on an engine come from one flow there are none of
these.
-/

namespace CoreEngines

section
variable {history before after : History} {world : World} {flows : Nat → Flow} {number : Nat}
  {operation : Operation} {command : LocalStorage.Command} {story : List Happening}
  {target : Ref .engine} {place : Ref .context}

namespace Engine

/-- The step that publishes a context. -/
abbrev publication (target : Ref .engine) (place : Ref .context) : Happening :=
  .acted (.engine target (.fillContext place)) ()

/-- Whoever has seen that there is no context yet has looked before one was published. -/
theorem looked_before (hrun : Runs {} (before ++ after) world flows)
    (hfill : publication target place ∈ before.map Prod.snd)
    (hlook : .acted (.engine target .context) none ∈
      (Journal.ofHistory (before ++ after)).own number) :
    .acted (.engine target .context) none ∈ (Journal.ofHistory before).own number := by
  obtain ⟨made, rest, hown⟩ := List.append_of_mem hlook
  obtain ⟨earlier, index, later, hhistory, _, hgains⟩ := hrun.moment_of_own hown
  have hpast : earlier ++ [(index, .acted (.engine target .context) none)] <+: before ++ after :=
    ⟨later, by simp [hhistory]⟩
  rcases List.prefix_or_prefix_of_prefix hpast (List.prefix_append before after) with hshort | hlong
  · obtain ⟨rest, rfl⟩ := hshort
    refine (Journal.own_continues _ rest number).mem ?_
    rw [hgains.own_self]
    exact List.mem_append_right _ (List.mem_singleton_self _)
  · rw [hhistory] at hrun
    have hunseen : publication target place ∉ earlier.map Prod.snd :=
      (seen_iff hrun).not.mp (by simp)
    rcases List.prefix_concat_iff.mp hlong with rfl | hlong
    · rw [List.map_append, List.mem_append] at hfill
      rcases hfill with hfill | hlast
      · exact absurd hfill hunseen
      · simp at hlast
    · exact absurd ((hlong.map Prod.snd).mem hfill) hunseen

/-- All calls on an engine come from one flow. -/
def CalledFromOneFlow (target : Ref .engine) (history : History) : Prop :=
  ∃ home, ∀ {index operation}, (index, .started operation) ∈ history →
    operation.engine? = some target → index = home

theorem enter_of_fill (hrun : Runs {} history world flows)
    (hown : (Journal.ofHistory history).own number = .started operation :: story)
    (hfill : publication target place ∈ story) :
    operation = .enter target := by
  have hcourse := Operation.mem_course_of_topic hfill rfl operation.entry_mem_traits
  have hbegins := hrun.begins hown
  obtain ⟨topic, htopic, hsame⟩ := hbegins.topic hcourse
  cases hsame
  obtain ⟨other, rfl⟩ := Operation.enter_of_entry htopic
  rw [engine_of_begins hbegins hcourse]

/-- A call that has found that there is no context asks nobody after that. -/
theorem not_asking_of_early {callback : Callback} {answer : Except Failure callback.Answer}
    {rest : List Happening} {result : Except Failure operation.Reply}
    (hcommand : operation.command? = some command) (htarget : operation.engine? = some target)
    (hlook : .acted (.engine target .context) none ∈ story)
    (htells : operation.program.Tells (story ++ .answered callback answer :: rest) result) :
    False := by
  have hnone : ∀ {way found}, operation.Finds way found →
      .acted (.engine target .context) none ∈ way →
        way = [.acted (.engine target .context) none] ∧ ∃ slot, found = .ok slot := by
    intro way found hfinds hmem
    cases selects_of_finds hcommand htarget hfinds with
    | bootstrap => exact ⟨rfl, _, rfl⟩
    | _ => simp at hmem
  have hstory := Operation.storageStory_of_tells hcommand htells
  generalize hwhole : story ++ .answered callback answer :: rest = whole at hstory
  have hin : .acted (.engine target .context) none ∈ whole := by simp [← hwhole, hlook]
  have hasked : .answered callback answer ∈ whole := by simp [← hwhole]
  cases hstory with
  | @served way slot storage reply hfinds hreplies =>
      have hway : .acted (.engine target .context) none ∈ way := by
        cases slot <;> simpa [StorageSlot.visit, StorageSlot.reads, StorageSlot.writes] using hin
      obtain ⟨rfl, _⟩ := hnone hfinds hway
      cases slot <;> simp [StorageSlot.visit, StorageSlot.reads, StorageSlot.writes] at hasked
  | refused hfinds =>
      obtain ⟨_, slot, hfound⟩ := hnone hfinds hin
      cases hfound

/-- Whoever is about to use the bootstrap storage has done nothing but find it, and read it. -/
theorem approach_of_use {index : Nat} {happening : Happening} {storage : LocalStorage}
    (hrun : Runs {} (history ++ [(index, happening)]) world flows)
    (huses : happening = (StorageSlot.bootstrap target).reads storage ∨
      happening = (StorageSlot.bootstrap target).writes storage)
    (hgains : (Journal.ofHistory history).Gains
      (Journal.ofHistory (history ++ [(index, happening)])) number happening) :
    ∃ operation command story, operation.command? = some command ∧
      operation.engine? = some target ∧
        (Journal.ofHistory history).own number = .started operation :: story ∧
          .acted (.engine target .context) none ∈ story ∧
            ∀ made ∈ story, made.isStep ∧ ∀ place, made ≠ publication target place := by
  rcases huses with rfl | rfl
  · obtain ⟨operation, command, way, hcommand, hfinds, hmade⟩ :=
      hrun.visit_of_reads hgains.own_self
    obtain ⟨htarget, rfl⟩ := hfinds.bootstrap
    exact ⟨operation, command, _, hcommand, htarget, hmade, by simp, by simp [Happening.isStep]⟩
  · obtain ⟨operation, command, way, held, hcommand, hfinds, _, hmade⟩ :=
      hrun.visit_of_writes hgains.own_self
    obtain ⟨htarget, rfl⟩ := hfinds.bootstrap
    refine ⟨operation, command, _, hcommand, htarget, hmade, by simp, ?_⟩
    simp [Happening.isStep, StorageSlot.reads]

/-- Whoever has done nothing but see no context, and that after the publication of one, had seen it
before and was in progress then. -/
theorem underway_of_look {index : Nat}
    (hrun : Runs {} (before ++ (index, publication target place) :: after) world flows)
    (hown : (Journal.ofHistory (before ++ (index, publication target place) :: after)).own number =
      .started operation :: story)
    (hlook : .acted (.engine target .context) none ∈ story)
    (hsteps : ∀ made ∈ story, made.isStep ∧ ∀ place, made ≠ publication target place) :
    ∃ made, (Journal.ofHistory before).own number = .started operation :: made ∧
      .acted (.engine target .context) none ∈ made ∧
        (∃ home, number ∈ (Journal.ofHistory before).running home) ∧
          publication target place ∉
            (Journal.ofHistory (before ++ [(index, publication target place)])).own number := by
  rw [List.append_cons] at hrun hown
  have hpublished :=
    Journal.own_continues (before ++ [(index, publication target place)]) after number
  rw [hown] at hpublished
  have hunfilled : publication target place ∉
      (Journal.ofHistory (before ++ [(index, publication target place)])).own number := by
    intro hfill
    rcases List.mem_cons.mp (hpublished.mem hfill) with hstart | hstory
    · cases hstart
    · exact (hsteps _ hstory).2 place rfl
  have hlast : publication target place ∈
      (before ++ [(index, publication target place)]).map Prod.snd := by simp
  have hlooked := looked_before hrun hlast (hown ▸ List.mem_cons_of_mem _ hlook)
  -- somebody else has published it, so before that this story was the same
  obtain ⟨_, _, hfilling⟩ := hrun.beginning
  obtain ⟨publisher, hfills⟩ := hfilling.gains
  have hothers : number ≠ publisher := by
    rintro rfl
    exact hunfilled (hfills.own_self ▸ List.mem_append_right _ (List.mem_singleton_self _))
  rw [hfills.own_of_ne hothers] at hpublished hlooked
  obtain ⟨_, _, hbefore⟩ := hfilling.beginning
  obtain hnone | ⟨started, made, hmade⟩ := hbefore.own_cases number
  · rw [hnone] at hlooked
    cases hlooked
  · rw [hmade] at hpublished hlooked
    obtain ⟨hstarted, hstory⟩ := List.cons_prefix_cons.mp hpublished
    cases hstarted
    exact ⟨made, hmade, by simpa using hlooked,
      hbefore.running_of_steps hmade fun happening hmem => (hsteps _ (hstory.mem hmem)).1,
      hunfilled⟩

/-- Whoever uses the bootstrap storage after the publication of a context was on the way to it
then, having seen none. -/
theorem underway_of_use {index place' : Nat} {happening : Happening} {storage : LocalStorage}
    (hrun : Runs {} (before ++ (index, publication target place) :: after)
      world flows)
    (hmem : (place', happening) ∈ after)
    (huses : happening = (StorageSlot.bootstrap target).reads storage ∨
      happening = (StorageSlot.bootstrap target).writes storage) :
    ∃ number operation command story, operation.command? = some command ∧
      operation.engine? = some target ∧
        (Journal.ofHistory before).own number = .started operation :: story ∧
          .acted (.engine target .context) none ∈ story ∧
            (∃ home, number ∈ (Journal.ofHistory before).running home) ∧
              publication target place ∉ (Journal.ofHistory (before ++
                [(index, publication target place)])).own number := by
  obtain ⟨between, rest, rfl⟩ := List.append_of_mem hmem
  have hhistory : before ++ (index, publication target place) ::
      (between ++ (place', happening) :: rest) =
        ((before ++ (index, publication target place) :: between) ++ [(place', happening)]) ++
          rest := by simp
  rw [hhistory] at hrun
  obtain ⟨_, _, hnow⟩ := hrun.beginning
  obtain ⟨number, hgains⟩ := hnow.gains
  obtain ⟨operation, command, story, hcommand, htarget, hown, hlook, hsteps⟩ :=
    approach_of_use hnow huses hgains
  obtain ⟨_, _, hpast⟩ := hnow.beginning
  obtain ⟨made, hmade, hlooked, hrunning, hunfilled⟩ := underway_of_look hpast hown hlook hsteps
  exact ⟨number, operation, command, made, hcommand, htarget, hmade, hlooked, hrunning, hunfilled⟩

/-- Whoever publishes a context is an entry, the innermost operation of the flow that it was started
in. -/
theorem publisher_of_move {index : Nat} {move : Move} {machine machine' : Machine}
    (hrun : Runs {} before machine.world machine.flow)
    (hmove : machine.move? index move = some (machine', publication target place)) :
    ∃ publisher numbers, (Journal.ofHistory before).running index = publisher :: numbers ∧
      (Journal.ofHistory before).Gains
        (.ofHistory (before ++ [(index, publication target place)])) publisher
        (publication target place) ∧
      (index, .started (.enter target)) ∈ before := by
  obtain ⟨_, hmoves, _⟩ := Machine.move?_moves hmove
  obtain ⟨publisher, numbers, hpublisher, hfills⟩ := hrun.gains_step hmoves rfl
  have hinnermost : publisher ∈ (Journal.ofHistory before).running index :=
    hpublisher ▸ List.mem_cons_self
  obtain ⟨entry, made, hmade⟩ := hrun.own_of_running hinnermost
  have hpublished := hfills.own_self
  rw [hmade] at hpublished
  obtain rfl := enter_of_fill (Machine.runs_move? hrun hmove) hpublished
    (List.mem_append_right _ (List.mem_singleton_self _))
  exact ⟨publisher, numbers, hpublisher, hfills, hrun.origin hinnermost hmade⟩

/-- A call that has found that there is no context lies below no other operation, as it would be
asking then. -/
theorem not_below_of_early {index innermost : Nat} {numbers : List Nat}
    (hrun : Runs {} before world flows) (hasking : (flows index).tail.all (·.isAsking))
    (hrunning : (Journal.ofHistory before).running index = innermost :: numbers)
    (hcommand : operation.command? = some command) (htarget : operation.engine? = some target)
    (hown : (Journal.ofHistory before).own number = .started operation :: story)
    (hlook : .acted (.engine target .context) none ∈ story) : number ∉ numbers := by
  intro hbelow
  have haccount := (hrun.account telling_obeyed telling_upholds).1.running index
  rw [hrunning] at haccount
  generalize flows index = activations at haccount hasking
  cases haccount with
  | cons hhead htail =>
      obtain ⟨activation, hzip, haccounts⟩ := exists_of_mem_forall₂ htail hbelow
      have hactivation := (List.of_mem_zip hzip).2
      obtain ⟨callback, answer, rest, result, htells⟩ :=
        tells_of_asking haccounts (List.all_eq_true.mp hasking activation hactivation)
          (Operation.straight_of_command hcommand) hown
      exact not_asking_of_early hcommand htarget hlook htells

/-- Where all calls on an engine come from one flow, its bootstrap storage is left alone from the
publication of the context on: a call on the way to it would not let anybody publish one. -/
theorem retired_of_run? {count index place' : Nat} {moves : List (Nat × Move)} {machine : Machine}
    {happening : Happening} {storage : LocalStorage}
    (hrun : (Machine.idle {} count).run? moves = some (machine, before ++
      (index, publication target place) :: after))
    (honeFlow : CalledFromOneFlow target (before ++
      (index, publication target place) :: after))
    (hmem : (place', happening) ∈ after) :
    happening ≠ (StorageSlot.bootstrap target).reads storage ∧
      happening ≠ (StorageSlot.bootstrap target).writes storage := by
  rw [← not_or]
  intro huses
  obtain ⟨home, hhome⟩ := honeFlow
  obtain ⟨number, operation, command, story, hcommand, htarget, hown, hlook, ⟨flow, hrunning⟩,
    hunfilled⟩ := underway_of_use (Machine.runs_of_run? hrun) hmem huses
  obtain ⟨middle, first, move, next, _, hfirst, hmove, _⟩ := Machine.run?_moment hrun
  have hbefore := Machine.runs_of_run? hfirst
  have hnested := Machine.nested_run? (Machine.nested_idle {} count) hfirst
  obtain ⟨publisher, numbers, hpublisher, hfills, hstarted⟩ := publisher_of_move hbefore hmove
  have hothers : number ≠ publisher := by
    rintro rfl
    exact hunfilled (hfills.own_self ▸ List.mem_append_right _ (List.mem_singleton_self _))
  -- both are in the same flow, so the call lies below the entry
  have hentry : index = home := hhome (List.mem_append_left _ hstarted) rfl
  have hflow : flow = home := hhome (List.mem_append_left _ (hbefore.origin hrunning hown)) htarget
  have hbelow : number ∈ numbers := by
    rw [hflow, ← hentry, hpublisher] at hrunning
    exact (List.mem_cons.mp hrunning).resolve_left hothers
  exact not_below_of_early hbefore (hnested index) hpublisher hcommand htarget hown hlook hbelow

end Engine

end

end CoreEngines
