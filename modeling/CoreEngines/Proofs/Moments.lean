import CoreEngines.Proofs.Courses.Stories

/-!
Moments.  A run adds one entry to its journal with every move, so a property of the journal and the
world can be followed from move to move, and for every step that a story tells there is the moment
at which it was done.
-/

namespace CoreEngines

namespace Journal

variable {journal journal' : Journal} {number : Nat} {happening : Happening}

/-- One more thing happened, and this operation did it. -/
def Gains (journal journal' : Journal) (number : Nat) (happening : Happening) : Prop :=
  journal'.entries = journal.entries ++ [(number, happening)]

theorem Gains.own (hgains : journal.Gains journal' number happening) :
    journal'.own = Function.update journal.own number (journal.own number ++ [happening]) := by
  rw [← own_append journal number happening journal.running]
  funext other
  rw [Journal.own, hgains]
  rfl

theorem Gains.own_self (hgains : journal.Gains journal' number happening) :
    journal'.own number = journal.own number ++ [happening] := by
  rw [hgains.own, Function.update_self]

theorem Gains.own_of_ne {other : Nat} (hgains : journal.Gains journal' number happening)
    (hother : other ≠ number) : journal'.own other = journal.own other := by
  rw [hgains.own, Function.update_of_ne hother]

theorem Gains.deeds {β : Type} (hgains : journal.Gains journal' number happening)
    (pick : Happening → Option β) :
    journal'.deeds pick =
      journal.deeds pick ++ ((pick happening).map fun deed => (number, deed)).toList := by
  rw [Journal.deeds, hgains, List.filterMap_append, Journal.deeds]
  cases hpick : pick happening <;> simp [hpick]

def doing? (journal : Journal) (number : Nat) : Option Operation :=
  match journal.own number with
  | .started operation :: _ => some operation
  | _ => none

theorem doing?_of_own {operation : Operation} {story : List Happening}
    (hown : journal.own number = .started operation :: story) :
    journal.doing? number = some operation := by
  rw [doing?, hown]

/-- What an operation is does not change. -/
theorem Gains.doing? {other : Nat} (hgains : journal.Gains journal' number happening)
    (hother : journal.own other ≠ []) : journal'.doing? other = journal.doing? other := by
  have hown : ∃ rest, journal'.own other = journal.own other ++ rest := by
    by_cases hsame : other = number
    · subst hsame
      exact ⟨_, hgains.own_self⟩
    · exact ⟨[], by rw [hgains.own_of_ne hsame, List.append_nil]⟩
  obtain ⟨rest, hown⟩ := hown
  obtain ⟨first, story, hstory⟩ := List.exists_cons_of_ne_nil hother
  rw [Journal.doing?, Journal.doing?, hown, hstory]
  cases first <;> rfl

/-- Who did what of one kind, where that depends on the operation, in the order of the run. -/
def deedsBy {β : Type} (journal : Journal) (pick : Operation → Happening → Option β) :
    List (Nat × β) :=
  journal.entries.filterMap fun entry =>
    ((journal.doing? entry.1).bind (pick · entry.2)).map fun deed => (entry.1, deed)

theorem Gains.deedsBy {β : Type} (hgains : journal.Gains journal' number happening)
    (pick : Operation → Happening → Option β) :
    journal'.deedsBy pick = journal.deedsBy pick ++
      (((journal'.doing? number).bind (pick · happening)).map fun deed =>
        (number, deed)).toList := by
  have hold : journal.entries.filterMap (fun entry =>
      ((journal'.doing? entry.1).bind (pick · entry.2)).map fun deed => (entry.1, deed)) =
        journal.deedsBy pick := by
    apply List.filterMap_congr
    intro entry hentry
    have hother : journal.own entry.1 ≠ [] :=
      List.ne_nil_of_mem (List.mem_filterMap.mpr ⟨_, hentry, if_pos rfl⟩)
    rw [hgains.doing? hother]
  rw [Journal.deedsBy, hgains, List.filterMap_append, hold, List.filterMap_cons,
    List.filterMap_nil]
  cases (journal'.doing? number).bind (pick · happening) <;> rfl

/-- Whoever is in progress was so before, or has just started. -/
theorem mem_running_add {journal : Journal} {index other number : Nat} {happening : Happening}
    (hrunning : number ∈ (journal.add (index, happening)).running other) :
    number ∈ journal.running other ∨
      other = index ∧ ∃ operation, happening = .started operation ∧ number = journal.started := by
  by_cases hother : other = index
  · subst hother
    cases happening with
    | started operation =>
        rw [running_add_started, Function.update_self, List.mem_cons] at hrunning
        exact hrunning.symm.imp_right fun hnew => ⟨rfl, operation, rfl, hnew⟩
    | finished operation result =>
        simp only [add, Function.update_self] at hrunning
        exact Or.inl (List.mem_of_mem_tail hrunning)
    | _ => exact Or.inl hrunning
  · cases happening with
    | started operation =>
        rw [running_add_started, Function.update_of_ne hother] at hrunning
        exact Or.inl hrunning
    | finished operation result =>
        simp only [add, Function.update_of_ne hother] at hrunning
        exact Or.inl hrunning
    | _ => exact Or.inl hrunning

theorem own_continues (before after : History) (number : Nat) :
    (ofHistory before).own number <+: (ofHistory (before ++ after)).own number := by
  obtain ⟨rest, hrest⟩ := entries_append before after
  rw [Journal.own, Journal.own, hrest, List.filterMap_append]
  exact List.prefix_append _ _

end Journal

/-- What an operation may do next where it stands: start, if it has not, then steps that the
discipline allows, and at last return as the discipline says. -/
def Discipline.Accepts {σ : Type} (discipline : Discipline σ) (state : Option σ) :
    Happening → Prop
  | .started _ => state = none
  | .finished operation result =>
      ∃ current, state = some current ∧ discipline.Returns operation current result
  | happening => ∃ current, state = some current ∧ discipline.Allows current happening

theorem Discipline.accepts_iff {σ : Type} {discipline : Discipline σ} {state : Option σ}
    {happening : Happening} (hstep : happening.isStep) :
    discipline.Accepts state happening ↔
      ∃ current, state = some current ∧ discipline.Allows current happening := by
  cases happening with
  | started operation => cases hstep
  | finished operation result => cases hstep
  | _ => exact Iff.rfl

/-- Where all operations stand after a move, and what the move was in the eyes of the discipline. -/
theorem Discipline.Account.gained {σ : Type} {discipline : Discipline σ}
    {journal journal' : Journal} {flows : Nat → Flow} {number : Nat} {happening : Happening}
    (haccount : discipline.Account journal' flows)
    (hgains : journal.Gains journal' number happening) :
    discipline.Accepts (discipline.standing journal number) happening ∧
      discipline.standing journal' = Function.update (discipline.standing journal) number
        (discipline.track (discipline.standing journal number) happening) := by
  constructor
  · have hown := hgains.own_self
    have hnumber : number < journal'.started := by
      by_contra hnot
      rw [Journal.own_eq_nil haccount.sound (Nat.le_of_not_lt hnot)] at hown
      simp at hown
    obtain ⟨operation, steps, hsteps, hkeeps, hstory | ⟨result, hstory, hreturns⟩⟩ :=
      haccount.story hnumber
    · rw [hown] at hstory
      rcases List.eq_nil_or_concat steps with rfl | ⟨earlier, last, rfl⟩
      · obtain ⟨hnone, hlast⟩ := List.append_inj'
          (show _ = [] ++ [Happening.started operation] from hstory) rfl
        cases hlast
        change List.foldl _ _ _ = _
        rw [hnone]
        rfl
      · rw [List.concat_eq_append, ← List.cons_append] at hstory
        rw [List.concat_eq_append] at hsteps hkeeps
        obtain ⟨hearlier, hlast⟩ := List.append_inj' hstory rfl
        cases hlast
        have hstands : discipline.standing journal number =
            some (discipline.after operation earlier) :=
          standing_of_own hearlier fun other hother => hsteps other (List.mem_append_left _ hother)
        exact (accepts_iff (hsteps happening (by simp))).mpr
          ⟨_, hstands, ((keeps_concat _ _ _).mp hkeeps).2⟩
    · rw [hown, ← List.cons_append] at hstory
      obtain ⟨hearlier, hlast⟩ := List.append_inj' hstory rfl
      cases hlast
      exact ⟨_, standing_of_own hearlier hsteps, hreturns⟩
  · rw [standing_update hgains.own, List.foldl_append]
    rfl

/-- Whatever stands in the first of two related lists has something beside it that it is related
to. -/
theorem exists_of_mem_forall₂ {α β : Type} {Related : α → β → Prop} {first : List α}
    {second : List β} {value : α} (hrelated : List.Forall₂ Related first second)
    (hmem : value ∈ first) : ∃ other, (value, other) ∈ first.zip second ∧ Related value other := by
  induction hrelated with
  | nil => cases hmem
  | cons hhead htail ih =>
      rcases List.mem_cons.mp hmem with rfl | hmem
      · exact ⟨_, List.mem_cons_self, hhead⟩
      · obtain ⟨other, hother, hvalue⟩ := ih hmem
        exact ⟨other, List.mem_cons_of_mem _ hother, hvalue⟩

namespace Runs

variable {start world later : World} {history : History} {flows flows' : Nat → Flow} {index : Nat}
  {happening : Happening} {flow : Flow}

/-- Whatever happens is put down to one operation. -/
theorem gains (hrun : Runs start (history ++ [(index, happening)]) later flows') :
    ∃ number, (Journal.ofHistory history).Gains
      (Journal.ofHistory (history ++ [(index, happening)])) number happening := by
  generalize hhistory : history ++ [(index, happening)] = longer at hrun
  cases hrun with
  | idle => simp at hhistory
  | @move old world later flows place happened flow hrun hmove =>
      obtain ⟨rfl, hlast⟩ := List.append_inj' hhistory rfl
      cases hlast
      have hlength := hrun.journal.1 index
      rw [Journal.ofHistory_concat]
      generalize flows index = old at hmove hlength
      cases hmove with
      | start operation => exact ⟨_, rfl⟩
      | step below hgoes hafter =>
          obtain ⟨number, numbers, hrunning⟩ := List.exists_cons_of_length_eq_add_one hlength
          exact ⟨number, congrArg Journal.entries (Journal.add_step hgoes.isStep hrunning)⟩
      | finish operation result below =>
          obtain ⟨number, numbers, hrunning⟩ := List.exists_cons_of_length_eq_add_one hlength
          exact ⟨number, congrArg Journal.entries (Journal.add_finished result hrunning)⟩

/-- What was done is told again, and before what was done later. -/
theorem deedsBy_append {β : Type} {before after : History}
    (hrun : Runs start (before ++ after) world flows) (pick : Operation → Happening → Option β) :
    ∃ more, (Journal.ofHistory (before ++ after)).deedsBy pick =
      (Journal.ofHistory before).deedsBy pick ++ more := by
  induction after using List.reverseRecOn generalizing world flows with
  | nil => exact ⟨[], by simp⟩
  | append_singleton after entry ih =>
      rw [← List.append_assoc] at hrun ⊢
      obtain ⟨_, _, hpast⟩ := hrun.beginning
      obtain ⟨more, hmore⟩ := ih hpast
      obtain ⟨number, hgains⟩ := hrun.gains
      exact ⟨_, by rw [hgains.deedsBy, hmore, List.append_assoc]⟩

/-- Whatever is done between the start and the return of an operation is put down to the innermost
operation of the flow. -/
theorem gains_step (hrun : Runs start history world flows)
    (hmove : (flows index).Moves world happening later flow) (hstep : happening.isStep) :
    ∃ number numbers, (Journal.ofHistory history).running index = number :: numbers ∧
      (Journal.ofHistory history).Gains
        (Journal.ofHistory (history ++ [(index, happening)])) number happening := by
  have hlength := hrun.journal.1 index
  rw [Journal.ofHistory_concat]
  generalize flows index = old at hmove hlength
  cases hmove with
  | start operation => cases hstep
  | step below hgoes hafter =>
      obtain ⟨number, numbers, hrunning⟩ := List.exists_cons_of_length_eq_add_one hlength
      exact ⟨number, numbers, hrunning,
        congrArg Journal.entries (Journal.add_step hgoes.isStep hrunning)⟩
  | finish operation result below => cases hstep

/-- What holds at first and outlasts every move holds in every run.  A move may be looked at with
all that is known of the run before it and after it. -/
theorem grows (hrun : Runs start history world flows) (Holds : History → World → Prop)
    (hidle : Holds [] start)
    (hstep : ∀ {history world flows later flows' happening} (index number : Nat),
      Runs start history world flows →
        Runs start (history ++ [(index, happening)]) later flows' →
          world.After happening later →
            (Journal.ofHistory history).Gains
              (Journal.ofHistory (history ++ [(index, happening)])) number happening →
              Holds history world → Holds (history ++ [(index, happening)]) later) :
    Holds history world := by
  induction hrun with
  | idle => exact hidle
  | move hrun hmove ih =>
      have hnext := Runs.move hrun hmove
      obtain ⟨number, hgains⟩ := hnext.gains
      exact hstep _ number hrun hnext hmove.after hgains ih

/-- Whatever an operation has done, there is the moment at which it did it: it had come so far, and
then did this. -/
theorem moment_of_own {number : Nat} {made rest : List Happening}
    (hrun : Runs start history world flows)
    (hown : (Journal.ofHistory history).own number = made ++ happening :: rest) :
    ∃ before index after, history = before ++ (index, happening) :: after ∧
      (Journal.ofHistory before).own number = made ∧
        (Journal.ofHistory before).Gains
          (Journal.ofHistory (before ++ [(index, happening)])) number happening := by
  induction hrun generalizing rest with
  | idle => simp [Journal.ofHistory, Journal.own, Journal.blank] at hown
  | @move history world later flows index last flow hrun hmove ih =>
      obtain ⟨doer, hgains⟩ := (Runs.move hrun hmove).gains
      have hearlier : ∀ {rest}, (Journal.ofHistory history).own number = made ++ happening :: rest →
          ∃ before place after, history ++ [(index, last)] =
              before ++ (place, happening) :: after ∧
            (Journal.ofHistory before).own number = made ∧
              (Journal.ofHistory before).Gains
                (Journal.ofHistory (before ++ [(place, happening)])) number happening := by
        intro rest hown
        obtain ⟨before, place, after, rfl, hmade, hmoment⟩ := ih hown
        exact ⟨before, place, after ++ [(index, last)], by simp, hmade, hmoment⟩
      by_cases hnumber : number = doer
      · subst hnumber
        rw [hgains.own_self] at hown
        rcases List.eq_nil_or_concat rest with rfl | ⟨rest, other, rfl⟩
        · obtain ⟨hmade, hlast⟩ := List.append_inj' hown rfl
          cases hlast
          exact ⟨history, index, [], rfl, hmade, hgains⟩
        · rw [List.concat_eq_append, ← List.cons_append, ← List.append_assoc] at hown
          exact hearlier (List.append_inj' hown rfl).1
      · rw [hgains.own_of_ne hnumber] at hown
        exact hearlier hown

/-- What an operation does that has not started by then is done later. -/
theorem prefix_of_unstarted {before after earlier : History} {number : Nat}
    {entry : Nat × Happening} {later : History} {first : Happening} {made : List Happening}
    (hrun : Runs start (before ++ after) world flows)
    (hnumber : (Journal.ofHistory before).started ≤ number)
    (hhistory : before ++ after = earlier ++ entry :: later)
    (hown : (Journal.ofHistory earlier).own number = first :: made) : before <+: earlier := by
  have hpast : earlier <+: before ++ after := hhistory ▸ List.prefix_append _ _
  refine (List.prefix_or_prefix_of_prefix (List.prefix_append before after) hpast).resolve_right ?_
  rintro ⟨rest, rfl⟩
  obtain ⟨_, _, hbefore⟩ := hrun.beginning
  have hnone := Journal.own_eq_nil hbefore.coursing.sound hnumber
  have hgrown := Journal.own_continues earlier rest number
  rw [hnone, hown] at hgrown
  cases List.prefix_nil.mp hgrown

theorem doer_eq {β : Type} {pick : Happening → Option β} {deed : β} {number other : Nat}
    {first second : Happening} (hrun : Runs start history world flows)
    (hnodup : ((history.map Prod.snd).filterMap pick).Nodup)
    (hnumber : first ∈ (Journal.ofHistory history).own number) (hfirst : pick first = some deed)
    (hother : second ∈ (Journal.ofHistory history).own other) (hsecond : pick second = some deed) :
    number = other := by
  rw [← hrun.deeds] at hnodup
  have hsame := List.inj_on_of_nodup_map hnodup (Journal.mem_deeds.mpr ⟨first, hnumber, hfirst⟩)
    (Journal.mem_deeds.mpr ⟨second, hother, hsecond⟩) rfl
  exact congrArg Prod.fst hsame

/-- A move of a flow is a step of its innermost operation, or leaves the world alone. -/
theorem step_of_moves {operation : Operation} {rest : Program operation.Reply} {below flow : Flow}
    (hrun : Runs start history world flows) (hflow : flows index = ⟨operation, rest⟩ :: below)
    (hmove : (flows index).Moves world happening later flow) :
    later = world ∨ ∃ number story,
      (Journal.ofHistory history).own number = .started operation :: story ∧
        (Journal.ofHistory (history ++ [(index, happening)])).own number =
          .started operation :: (story ++ [happening]) := by
  have haccount := hrun.coursing
  obtain ⟨number, numbers, hrunning, ⟨story, hown, _⟩, _⟩ := haccount.top hflow
  rw [hflow] at hmove
  cases hmove with
  | start operation => exact Or.inl rfl
  | finish operation result => exact Or.inl rfl
  | step _ hgoes hafter =>
      refine Or.inr ⟨number, story, hown, ?_⟩
      rw [Journal.ofHistory_concat, Journal.own_add_step hgoes.isStep hrunning,
        Function.update_self, hown]
      rfl

theorem own_of_running {number : Nat} (hrun : Runs start history world flows)
    (hrunning : number ∈ (Journal.ofHistory history).running index) :
    ∃ operation story, (Journal.ofHistory history).own number = .started operation :: story := by
  have hnumbered := hrun.coursing.sound.numbered hrunning
  obtain ⟨operation, steps, _, _, hown | ⟨result, hown, _⟩⟩ := hrun.coursing.story hnumbered
  · exact ⟨operation, steps, hown⟩
  · exact ⟨operation, _, hown⟩

theorem running_of_steps {number : Nat} {operation : Operation} {story : List Happening}
    (hrun : Runs start history world flows)
    (hown : (Journal.ofHistory history).own number = .started operation :: story)
    (hsteps : ∀ happening ∈ story, happening.isStep) :
    ∃ index, number ∈ (Journal.ofHistory history).running index := by
  have haccount := hrun.coursing
  refine (haccount.closed number (Journal.lt_started_of_own haccount.sound hown)).resolve_right ?_
  rintro ⟨other, steps, result, hclosed, _⟩
  obtain ⟨_, rfl⟩ := List.cons.inj (hown.symm.trans hclosed)
  cases hsteps _ (List.mem_append_right _ (List.mem_singleton_self _))

/-- An operation in progress was started in the flow that it runs in. -/
theorem origin {number : Nat} {operation : Operation} {story : List Happening}
    (hrun : Runs start history world flows)
    (hrunning : number ∈ (Journal.ofHistory history).running index)
    (hown : (Journal.ofHistory history).own number = .started operation :: story) :
    (index, .started operation) ∈ history := by
  induction hrun generalizing story with
  | idle => simp [Journal.ofHistory, Journal.blank] at hrunning
  | @move history world later flows place happening flow hrun hmove ih =>
      have hbefore := Journal.own_continues history [(place, happening)] number
      rw [hown] at hbefore
      rw [Journal.ofHistory_concat] at hrunning hown
      rcases Journal.mem_running_add hrunning with hold | ⟨rfl, started, rfl, rfl⟩
      · obtain ⟨other, told, htold⟩ := hrun.own_of_running hold
        rw [htold] at hbefore
        cases (List.cons_prefix_cons.mp hbefore).1
        exact List.mem_append_left _ (ih hold htold)
      · rw [Journal.own_add_started hrun.coursing.sound, Function.update_self] at hown
        cases hown
        simp

end Runs

/-- Make moves of one flow while all others stand still. -/
def Flow.run? (world : World) (flow : Flow) : List Move → Option (World × Flow × List Happening)
  | [] => some (world, flow, [])
  | move :: moves =>
      (flow.move? world move).bind fun (world, flow, happening) =>
        (Flow.run? world flow moves).map fun (world, flow, happenings) =>
          (world, flow, happening :: happenings)

theorem Flow.run?_append (world : World) (flow : Flow) (first second : List Move) :
    flow.run? world (first ++ second) = (flow.run? world first).bind fun (world, flow, made) =>
      (Flow.run? world flow second).map fun (world, flow, more) => (world, flow, made ++ more) := by
  induction first generalizing world flow with
  | nil => cases hrun : flow.run? world second <;> simp [Flow.run?, hrun]
  | cons move first ih =>
      simp only [List.cons_append, Flow.run?]
      cases flow.move? world move with
      | none => rfl
      | some moved =>
          obtain ⟨world, flow, happening⟩ := moved
          simp only [Option.bind_some, ih]
          cases flow.run? world first with
          | none => rfl
          | some ran =>
              obtain ⟨world, flow, made⟩ := ran
              simp only [Option.bind_some, Option.map_some]
              cases Flow.run? world flow second <;> rfl

/-- A run of a machine can be halted wherever its history can be divided. -/
theorem Machine.run?_split {machine machine' : Machine} {moves : List (Nat × Move)}
    {before after : History} (hrun : machine.run? moves = some (machine', before ++ after)) :
    ∃ middle first second, machine.run? first = some (middle, before) ∧
      middle.run? second = some (machine', after) := by
  induction before generalizing machine moves with
  | nil => exact ⟨machine, [], moves, rfl, hrun⟩
  | cons entry before ih =>
      cases moves with
      | nil => cases hrun
      | cons head moves =>
          simp only [run?, Option.bind_eq_some_iff, Option.map_eq_some_iff] at hrun
          obtain ⟨⟨next, happening⟩, hmove, ⟨last, later⟩, hlater, heq⟩ := hrun
          cases heq
          obtain ⟨middle, first, second, hfirst, hsecond⟩ := ih hlater
          refine ⟨middle, head :: first, second, ?_, hsecond⟩
          simp [run?, hmove, hfirst]

/-- Whatever a machine has made happen, it did with one of its moves. -/
theorem Machine.run?_moment {machine machine' : Machine} {moves : List (Nat × Move)}
    {before after : History} {index : Nat} {happening : Happening}
    (hrun : machine.run? moves = some (machine', before ++ (index, happening) :: after)) :
    ∃ middle first move next second, machine.run? first = some (middle, before) ∧
      middle.move? index move = some (next, happening) ∧
        next.run? second = some (machine', after) := by
  obtain ⟨middle, first, second, hfirst, hsecond⟩ := run?_split hrun
  cases second with
  | nil => cases hsecond
  | cons head second =>
      simp only [run?, Option.bind_eq_some_iff, Option.map_eq_some_iff] at hsecond
      obtain ⟨⟨next, happening⟩, hmove, ⟨last, later⟩, hlater, heq⟩ := hsecond
      cases heq
      exact ⟨middle, first, head.2, next, second, hfirst, hmove, hlater⟩

theorem setIfInBounds_self {α : Type} {objects : Array α} {index : Nat} {object : α}
    (hobject : objects[index]? = some object) : objects.setIfInBounds index object = objects := by
  obtain ⟨hinside, rfl⟩ := Array.getElem?_eq_some_iff.mp hobject
  rw [Array.setIfInBounds, dif_pos hinside, Array.set_getElem_self]

/-- A machine moves one of its flows as this flow moves on its own. -/
theorem Machine.run?_flow {machine : Machine} {index : Nat} {flow flow' : Flow}
    {moves : List Move} {later : World} {happenings : List Happening}
    (hflow : machine.flows[index]? = some flow)
    (hrun : flow.run? machine.world moves = some (later, flow', happenings)) :
    machine.run? (moves.map fun move => (index, move)) =
      some (⟨later, machine.flows.setIfInBounds index flow'⟩,
        happenings.map fun happening => (index, happening)) := by
  induction moves generalizing machine flow happenings with
  | nil =>
      cases hrun
      rw [setIfInBounds_self hflow]
      rfl
  | cons move moves ih =>
      simp only [Flow.run?, Option.bind_eq_some_iff, Option.map_eq_some_iff] at hrun
      obtain ⟨⟨world, next, happening⟩, hmove, ⟨_, _, others⟩, hrest, heq⟩ := hrun
      cases heq
      have hstep : machine.move? index move =
          some (⟨world, machine.flows.setIfInBounds index next⟩, happening) := by
        simp only [Machine.move?, hflow, Option.bind_some, hmove, Option.map_some]
      have hnext : (machine.flows.setIfInBounds index next)[index]? = some next := by
        simp [(Array.getElem?_eq_some_iff.mp hflow).1]
      have hlater := @ih ⟨world, machine.flows.setIfInBounds index next⟩ next others hnext hrest
      simp only [Array.setIfInBounds_setIfInBounds] at hlater
      simp [Machine.run?, hstep, hlater]

theorem Machine.run?_flow_back {machine : Machine} {index : Nat} {flow : Flow} {moves : List Move}
    {later : World} {happenings : List Happening} (hflow : machine.flows[index]? = some flow)
    (hrun : flow.run? machine.world moves = some (later, flow, happenings)) :
    machine.run? (moves.map fun move => (index, move)) =
      some (⟨later, machine.flows⟩, happenings.map fun happening => (index, happening)) := by
  rw [run?_flow hflow hrun, setIfInBounds_self hflow]

section
variable {world later last : World} {flow below : Flow} {operation : Operation} {moves : List Move}
  {made : List Happening}

theorem Flow.run?_act {action : Action} {answer : action.Answer}
    {next : action.Answer → Program operation.Reply}
    (hperform : world.perform? action = some (answer, later))
    (hrest : Flow.run? later (⟨operation, next answer⟩ :: below) moves = some (last, flow, made)) :
    Flow.run? world (⟨operation, .act action next⟩ :: below) (.step :: moves) =
      some (last, flow, .acted action answer :: made) := by
  simp only [Flow.run?, Flow.move?, Program.advance?, hperform, Option.map_some, Option.bind_some,
    hrest]

theorem Flow.run?_emit {event : TraceEvent} {next : Program operation.Reply}
    (hrest : Flow.run? world (⟨operation, next⟩ :: below) moves = some (last, flow, made)) :
    Flow.run? world (⟨operation, .emit event next⟩ :: below) (.step :: moves) =
      some (last, flow, .reported event :: made) := by
  simp only [Flow.run?, Flow.move?, Program.advance?, Option.bind_some, hrest, Option.map_some]

theorem Flow.run?_answer {callback : Callback} {result : Except Failure callback.Answer}
    {next : Except Failure callback.Answer → Program operation.Reply}
    (hrest : Flow.run? world (⟨operation, next result⟩ :: below) moves = some (last, flow, made)) :
    Flow.run? world (⟨operation, .ask callback next⟩ :: below) (.answer callback result :: moves) =
      some (last, flow, .answered callback result :: made) := by
  simp only [Flow.run?, Flow.move?, dif_pos, Option.bind_some, hrest, Option.map_some]

/-- A flow goes on with the code of the procedure that it calls, -/
theorem Flow.run?_call {procedure : Procedure}
    {next : Except Failure procedure.Answer → Program operation.Reply}
    (hrest : Flow.run? world (⟨operation, procedure.code.andThen next⟩ :: below) moves =
      some (last, flow, made)) :
    Flow.run? world (⟨operation, .call procedure next⟩ :: below) (.step :: moves) =
      some (last, flow, .called procedure :: made) := by
  simp only [Flow.run?, Flow.move?, Program.advance?, Option.map_some, Option.bind_some, hrest]

/-- and as the hardware chooses. -/
theorem Flow.run?_choose {choice : Bool} {next : Bool → Program operation.Reply}
    (hrest : Flow.run? world (⟨operation, next choice⟩ :: below) moves = some (last, flow, made)) :
    Flow.run? world (⟨operation, .choose next⟩ :: below) (.choose choice :: moves) =
      some (last, flow, .chose choice :: made) := by
  simp only [Flow.run?, Flow.move?, Option.bind_some, hrest, Option.map_some]

theorem Flow.run?_start {program : Program operation.Reply} (hasking : below.all (·.isAsking))
    (hprogram : operation.program = program)
    (hrest : Flow.run? world (⟨operation, program⟩ :: below) moves = some (last, flow, made)) :
    Flow.run? world below (.start operation :: moves) =
      some (last, flow, .started operation :: made) := by
  subst hprogram
  simp only [Flow.run?, Flow.move?, hasking, if_pos, Option.bind_some, Activation.start, hrest,
    Option.map_some]

end

end CoreEngines
