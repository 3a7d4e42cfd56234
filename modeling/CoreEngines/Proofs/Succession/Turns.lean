import CoreEngines.Proofs.Succession.Revisions

/-!
Operations in succession.  Where one operation starts only after the one before has returned, and
the processor keeps its flag, a run does what each operation comes to that nobody disturbs.  And
whatever a sequence of operations comes to, there is a run of a machine that does it.
-/

namespace CoreEngines

open Program

/-- Whether an operation is going on after this, if it is known whether one was before.  Only
operations on mailboxes and registries start, and none before the last one has returned. -/
def Happening.turn? (busy : Bool) : Happening → Option Bool
  | .started operation => if busy || !operation.isTraffic then none else some true
  | .finished _ _ => some false
  | _ => some busy

def Happening.returned? : Happening → Option Completed
  | .finished operation result => some ⟨operation, result⟩
  | _ => none

/-- Operations on mailboxes and registries, one after the other on a processor that keeps its
flag. -/
structure Succession (found : Bool) (story : List Happening) (busy : Bool) : Prop where
  turns : story.foldlM Happening.turn? false = some busy
  keeps : KeepsFlag found story

/-- The setting that a story ends in. -/
def Setting.after (found : Bool) (story : List Happening) (world : World) : Setting :=
  ⟨world, flagAfter found story, story.filter Happening.asks, story.filter Happening.surfaces⟩

/-- How far the operations of a succession have come. -/
inductive Follows (start : World) (found : Bool) (story : List Happening) (world : World) :
    (Nat → Flow) → Bool → Prop
  | idle {operations : List Operation}
      (hplay : (Setting.after found [] start).play? operations =
        some (story.filterMap Happening.returned?, .after found story world)) :
      Follows start found story world (fun _ => []) false
  | busy {operations : List Operation} {past : Setting} {index : Nat} {operation : Operation}
      {rest : Program operation.Reply}
      (hplay : (Setting.after found [] start).play? operations =
        some (story.filterMap Happening.returned?, past))
      (hrest : rest.Ensures (undisturbed False) (.after found story world) fun later result =>
        operation.outcome? past = some (result, later)) :
      Follows start found story world (Function.update (fun _ => []) index [⟨operation, rest⟩]) true

section
variable {start world later : World} {found busy : Bool} {story : List Happening}
  {happening : Happening} {flows : Nat → Flow} {history : History}

theorem Succession.of_concat (hsuccession : Succession found (story ++ [happening]) busy) :
    ∃ before, Succession found story before ∧ happening.turn? before = some busy ∧
      happening.Honest (flagAfter found story) := by
  obtain ⟨hturns, hkeeps⟩ := hsuccession
  rw [List.foldlM_append] at hturns
  obtain ⟨before, hbefore, hlast⟩ := Option.bind_eq_some_iff.mp hturns
  exact ⟨before, ⟨hbefore, hkeeps.of_concat.1⟩, by simpa using hlast, hkeeps.of_concat.2⟩

/-- What happens to a setting is what a story tells of it. -/
theorem Setting.observe_after (found : Bool) (story : List Happening)
    (hafter : world.After happening later) :
    (Setting.after found story world).observe happening =
      .after found (story ++ [happening]) later := by
  have hflag : ((Setting.after found story world).observe happening).flag =
      flagAfter found (story ++ [happening]) :=
    (flagAfter_concat found story happening).symm
  have hworld : ((Setting.after found story world).observe happening).world = later := by
    cases happening with
    | acted action answer =>
        have hperform : world.perform? action = some (answer, later) := hafter
        simp [observe, Setting.after, hperform]
    | _ => exact hafter.symm
  refine Setting.ext hworld hflag ?_ ?_
  · cases hasks : happening.asks <;> simp [observe, Setting.after, List.filter_append, hasks]
  · cases hsurfaces : happening.surfaces <;>
      simp [observe, Setting.after, List.filter_append, hsurfaces]

/-- A world and a processor answer as the setting says. -/
theorem Setting.answers_after (hafter : world.After happening later)
    (hhonest : happening.Honest (flagAfter found story)) :
    (Setting.after found story world).Performs happening ∧
      (Setting.after found story world).Answers happening := by
  cases happening with
  | acted action answer =>
      have hperform : world.perform? action = some (answer, later) := hafter
      refine ⟨by simp [Performs, Setting.after, hperform], ?_⟩
      intro other last hother
      have hsame := hperform.symm.trans hother
      cases hsame
      rfl
  | _ => exact ⟨trivial, hhonest⟩

theorem Happening.turn?_of_isStep (hstep : happening.isStep) :
    happening.turn? true = some true ∧ happening.returned? = none := by
  cases happening <;> first | exact ⟨rfl, rfl⟩ | cases hstep

theorem eq_of_update_eq_cons {place index : Nat} {top activation : Activation} {below : Flow}
    (hflow : Function.update (fun _ => ([] : Flow)) place [top] index = activation :: below) :
    index = place ∧ below = [] ∧ top = activation := by
  by_cases hsame : index = place
  · subst hsame
    rw [Function.update_self] at hflow
    cases hflow
    exact ⟨rfl, rfl, rfl⟩
  · rw [Function.update_of_ne hsame] at hflow
    cases hflow

/-- Operations that have come so far come further with every move. -/
theorem Follows.move {before : Bool} {index : Nat} {flow : Flow}
    (hfollows : Follows start found story world flows before) (hworld : start.Quiescent)
    (hmove : (flows index).Moves world happening later flow)
    (hturn : happening.turn? before = some busy)
    (hhonest : happening.Honest (flagAfter found story)) :
    Follows start found (story ++ [happening]) later (Function.update flows index flow) busy := by
  obtain ⟨hperforms, hanswers⟩ := Setting.answers_after hmove.after hhonest
  have hobserve := Setting.observe_after found story hmove.after
  have hreturned : (story ++ [happening]).filterMap Happening.returned? =
      story.filterMap Happening.returned? ++ happening.returned?.toList := by
    cases happening <;> simp [Happening.returned?]
  cases hfollows with
  | idle hplay =>
      cases hmove with
      | start operation =>
          simp only [Happening.turn?, Bool.false_or, Option.ite_none_left_eq_some,
            Bool.not_eq_true', Bool.not_eq_false, Option.some.injEq] at hturn
          obtain ⟨htraffic, rfl⟩ := hturn
          have hnone : (Happening.started operation).returned? = none := rfl
          rw [hnone, Option.toList_none, List.append_nil] at hreturned
          refine .busy (hreturned ▸ hplay) (hobserve ▸ ?_)
          exact Operation.succeeds htraffic (Setting.quiescent_of_play? hplay hworld) False.elim
  | @busy _ past place operation rest hplay hrest =>
      generalize hold :
        Function.update (fun _ => ([] : Flow)) place [⟨operation, rest⟩] index = old at hmove
      cases hmove with
      | start other => cases hturn
      | step below hgoes hafter =>
          obtain ⟨rfl, rfl, heq⟩ := eq_of_update_eq_cons hold
          cases heq
          obtain ⟨hbusy, hnone⟩ := Happening.turn?_of_isStep hgoes.isStep
          obtain rfl : true = busy := Option.some.inj (hbusy.symm.trans hturn)
          rw [hnone, Option.toList_none, List.append_nil] at hreturned
          rw [Function.update_idem]
          have hnext := (hrest.goes undisturbed_rounds hgoes ⟨fun _ => hperforms, hanswers⟩).2
          exact .busy (hreturned ▸ hplay) (hobserve ▸ hnext)
      | finish other result below =>
          obtain ⟨rfl, rfl, heq⟩ := eq_of_update_eq_cons hold
          cases heq
          cases hturn
          have hdone : past.do? operation =
              some (⟨operation, result⟩, .after found (story ++ [.finished operation result]) world)
              := by
            rw [Setting.do?, show operation.outcome? past = _ from hrest, ← hobserve]
            rfl
          have hidle : Function.update (fun _ => ([] : Flow)) index [] = fun _ => [] :=
            Function.update_eq_self index _
          rw [Function.update_idem, hidle]
          exact .idle (hreturned ▸ Setting.play?_concat hplay hdone)

/-- A run follows the outcomes of its operations. -/
theorem Runs.follows (hrun : Runs start history world flows) (hworld : start.Quiescent)
    (hsuccession : Succession found (history.map Prod.snd) busy) :
    Follows start found (history.map Prod.snd) world flows busy := by
  induction hrun generalizing busy with
  | idle =>
      cases hsuccession.turns
      exact .idle (show Setting.play? _ [] = _ from rfl)
  | move hrun hmove ih =>
      rw [List.map_append, List.map_singleton] at hsuccession ⊢
      obtain ⟨before, hbefore, hturn, hhonest⟩ := hsuccession.of_concat
      exact (ih hbefore).move hworld hmove hturn hhonest

/-- When no operation is going on, all have come to their outcomes. -/
theorem Follows.play? (hfollows : Follows start found story world flows false) :
    ∃ operations, (Setting.after found [] start).play? operations =
      some (story.filterMap Happening.returned?, .after found story world) := by
  generalize hidle : false = busy at hfollows
  cases hfollows with
  | idle hplay => exact ⟨_, hplay⟩
  | busy hplay hrest => cases hidle

end

/-- A flow can bring its innermost operation to its end, in this world and on a processor with this
flag. -/
def Arrives {operation : Operation} (below : Flow) (program : Program operation.Reply)
    (setting later : Setting) (result : Except Failure operation.Reply) : Prop :=
  ∃ moves steps,
    Flow.run? setting.world (⟨operation, program⟩ :: below) moves =
        some (later.world, ⟨operation, .done result⟩ :: below, steps) ∧
      (∀ happening ∈ steps, happening.isStep) ∧ KeepsFlag setting.flag steps ∧
        later.flag = flagAfter setting.flag steps

section
variable {setting middle later : Setting} {operation : Operation} {below : Flow}
  {program rest : Program operation.Reply} {result : Except Failure operation.Reply}

theorem Setting.observe_flag (setting : Setting) (happening : Happening) :
    (setting.observe happening).flag = flagAfter setting.flag [happening] :=
  (flagAfter_concat setting.flag [] happening).symm

/-- One step more. -/
theorem Arrives.cons (move : Move) (happening : Happening)
    (harrives : Arrives below rest (setting.observe happening) later result)
    (hmove : Flow.move? setting.world (⟨operation, program⟩ :: below) move =
      some ((setting.observe happening).world, ⟨operation, rest⟩ :: below, happening))
    (hstep : happening.isStep) (hhonest : happening.Honest setting.flag) :
    Arrives below program setting later result := by
  obtain ⟨moves, steps, hmoves, hsteps, hkeeps, hlater⟩ := harrives
  rw [setting.observe_flag happening] at hkeeps hlater
  refine ⟨move :: moves, happening :: steps, ?_, List.forall_mem_cons.mpr ⟨hstep, hsteps⟩, ?_, ?_⟩
  · simp [Flow.run?, hmove, hmoves]
  · exact keepsFlag_cons.mpr ⟨hhonest, hkeeps⟩
  · rw [hlater, ← flagAfter_append]
    rfl

theorem Happening.exists_honest (flag : Bool) (callback : Callback) :
    ∃ result, Happening.Honest flag (.answered callback result) := by
  cases callback with
  | mask => exact ⟨.ok flag, rfl⟩
  | restore previous => exact ⟨.ok (), rfl⟩
  | _ => exact ⟨.error .aborted, trivial⟩

theorem code_claimSerial (target : Ref .counter) (seen : UInt64) :
    ∃ (choices : Bool → Program UInt64) (after : Option UInt64 → Program UInt64),
      (Procedure.claimSerial target seen).code = .choose choices ∧
        choices false = .act (.counter target (.exchange seen (Serial.after seen))) after ∧
          after none = .done (.ok seen) :=
  ⟨_, _, rfl, rfl, rfl⟩

/-- An operation that never has to wait arrives. -/
theorem arrives_of_ensures (below : Flow)
    {post : Setting → Except Failure operation.Reply → Prop}
    (hensures : program.Ensures (undisturbed True) setting post) :
    ∃ later result, Arrives below program setting later result ∧ post later result := by
  have hready : ∀ {setting : Setting} {happening : Happening}, setting.Answers happening →
      (¬ True → setting.Performs happening) ∧ setting.Answers happening :=
    fun hanswers => ⟨fun hnot => (hnot trivial).elim, hanswers⟩
  induction program generalizing setting with
  | done result => exact ⟨setting, result, ⟨[], [], rfl, by simp, by simp, rfl⟩, hensures⟩
  | act action next ih =>
      cases hperform : setting.world.perform? action with
      | none =>
          obtain ⟨answer⟩ := action.nonempty_answer
          have hanswers : setting.Answers (.acted action answer) := by
            intro other later hother
            cases hperform.symm.trans hother
          have hperforms : setting.Performs (.acted action answer) :=
            (hensures answer (hready hanswers)).1
          simp [Setting.Performs, hperform] at hperforms
      | some answered =>
          obtain ⟨answer, world⟩ := answered
          have hanswers : setting.Answers (.acted action answer) := by
            intro other later hother
            cases hperform.symm.trans hother
            rfl
          obtain ⟨later, result, harrives, hpost⟩ :=
            ih answer (hensures answer (hready hanswers)).2
          refine ⟨later, result, harrives.cons .step _ ?_ rfl trivial, hpost⟩
          simp [Flow.move?, Program.advance?, hperform, Setting.observe]
  | emit event next ih =>
      obtain ⟨later, result, harrives, hpost⟩ := ih (hensures (hready trivial)).2
      exact ⟨later, result, harrives.cons .step _ rfl rfl trivial, hpost⟩
  | choose next ih =>
      obtain ⟨later, result, harrives, hpost⟩ := ih false (hensures false (hready trivial)).2
      exact ⟨later, result, harrives.cons (.choose false) _ rfl rfl trivial, hpost⟩
  | ask callback next ih =>
      obtain ⟨answer, hhonest⟩ := Happening.exists_honest setting.flag callback
      obtain ⟨later, result, harrives, hpost⟩ := ih answer (hensures answer (hready hhonest)).2
      refine ⟨later, result, harrives.cons (.answer callback answer) _ ?_ rfl hhonest, hpost⟩
      simp only [Flow.move?, dif_pos]
      rfl
  | call procedure next ih =>
      obtain ⟨-, henters, hnext⟩ := hensures (hready trivial)
      cases procedure with
      | claimSerial target seen =>
          have hcounter : setting.world.counterAt? target = some ⟨seen⟩ := henters
          have hexchange := exchange_of_counterAt? hcounter
          obtain ⟨later, result, harrives, hpost⟩ := ih (.ok seen) (hnext _ _ ⟨rfl, rfl⟩)
          obtain ⟨choices, after, hcode, hfalse, hnone⟩ := code_claimSerial target seen
          have hclaimed : Arrives below ((after none).andThen next)
              (setting.observe (.acted (.counter target (.exchange seen (Serial.after seen)))
                (none : Option UInt64))) later result := by
            rw [hnone, Setting.observe_acted hexchange]
            exact harrives
          have hexchanged : Arrives below ((choices false).andThen next) setting later result := by
            rw [hfalse]
            refine hclaimed.cons .step _ ?_ rfl trivial
            simp [Flow.move?, Program.advance?, andThen, hexchange, Setting.observe]
          have hchosen : Arrives below ((Procedure.claimSerial target seen).code.andThen next)
              setting later result := by
            rw [hcode]
            exact hexchanged.cons (.choose false) (.chose false) rfl rfl trivial
          have hcalled :
              Arrives below (.call (.claimSerial target seen) next) setting later result :=
            hchosen.cons .step (.called _) rfl rfl trivial
          exact ⟨later, result, hcalled, hpost⟩
      | runLoop context => exact henters.elim
      | idle => exact henters.elim

end

section
variable {found busy : Bool} {early late steps : List Happening} {setting later : Setting}

theorem Succession.append (hearly : Succession found early false)
    (hlate : Succession (flagAfter found early) late busy) :
    Succession found (early ++ late) busy where
  turns := by
    rw [List.foldlM_append, hearly.turns]
    exact hlate.turns
  keeps := keepsFlag_append.mpr ⟨hearly.keeps, hlate.keeps⟩

/-- One operation, from its start to its end. -/
theorem succession_operation {operation : Operation} (htraffic : operation.isTraffic)
    (hsteps : ∀ happening ∈ steps, happening.isStep) (hkeeps : KeepsFlag found steps)
    (result : Except Failure operation.Reply) :
    Succession found (.started operation :: (steps ++ [.finished operation result])) false where
  turns := by
    have hbusy : steps.foldlM Happening.turn? true = some true := by
      clear hkeeps
      induction steps with
      | nil => rfl
      | cons happening steps ih =>
          obtain ⟨hstep, hsteps⟩ := List.forall_mem_cons.mp hsteps
          rw [List.foldlM_cons, (Happening.turn?_of_isStep hstep).1]
          exact ih hsteps
    rw [List.foldlM_cons, Happening.turn?, htraffic]
    change (steps ++ [Happening.finished operation result]).foldlM Happening.turn? true = some false
    rw [List.foldlM_append, hbusy]
    rfl
  keeps := by
    refine keepsFlag_cons.mpr ⟨trivial, keepsFlag_append.mpr ⟨hkeeps, ?_⟩⟩
    exact keepsFlag_cons.mpr ⟨trivial, keepsFlag_nil _⟩

theorem isTraffic_of_do? {operation : Operation} {returned : Completed}
    (hdone : setting.do? operation = some (returned, later)) : operation.isTraffic := by
  cases operation <;> first | rfl | cases hdone

theorem returned?_of_steps (hsteps : ∀ happening ∈ steps, happening.isStep) :
    steps.filterMap Happening.returned? = [] :=
  List.filterMap_eq_nil_iff.mpr fun happening hmem =>
    (Happening.turn?_of_isStep (hsteps happening hmem)).2

/-- What an operation comes to, a flow can do. -/
theorem run?_of_do? {operation : Operation} {returned : Completed}
    (hdone : setting.do? operation = some (returned, later)) (hworld : setting.world.Quiescent) :
    ∃ moves story, Flow.run? setting.world [] moves = some (later.world, [], story) ∧
      Succession setting.flag story false ∧ later.flag = flagAfter setting.flag story ∧
        story.filterMap Happening.returned? = [returned] := by
  have htraffic := isTraffic_of_do? hdone
  obtain ⟨⟨result, _⟩, houtcome, heq⟩ := Option.map_eq_some_iff.mp hdone
  cases heq
  have hsucceeds : operation.Succeeds True setting :=
    Operation.succeeds htraffic hworld fun _ => by simp [houtcome]
  obtain ⟨last, other, ⟨moves, steps, hmoves, hsteps, hkeeps, hflag⟩, hlast⟩ :=
    arrives_of_ensures [] hsucceeds
  cases houtcome.symm.trans hlast
  refine ⟨.start operation :: (moves ++ [.finish]), _, ?_,
    succession_operation htraffic hsteps hkeeps result, ?_, ?_⟩
  · apply Flow.run?_start rfl rfl
    rw [Flow.run?_append, hmoves]
    rfl
  · exact hflag.trans (flagAfter_append setting.flag steps [.finished operation result]).symm
  · rw [List.filterMap_cons, List.filterMap_append, returned?_of_steps hsteps]
    rfl

/-- What operations come to one after the other, a flow can do. -/
theorem run?_of_play? {operations : List Operation} {done : List Completed}
    (hplay : setting.play? operations = some (done, later)) (hworld : setting.world.Quiescent) :
    ∃ moves story, Flow.run? setting.world [] moves = some (later.world, [], story) ∧
      Succession setting.flag story false ∧ story.filterMap Happening.returned? = done := by
  induction operations generalizing setting done with
  | nil =>
      cases hplay
      exact ⟨[], [], rfl, ⟨rfl, keepsFlag_nil _⟩, rfl⟩
  | cons operation operations ih =>
      obtain ⟨returned, middle, others, hdone, hrest, rfl⟩ := Setting.play?_cons.mp hplay
      obtain ⟨moves, story, hmoves, hsuccession, hflag, hreturned⟩ := run?_of_do? hdone hworld
      obtain ⟨moves', story', hmoves', hsuccession', hothers⟩ :=
        ih hrest (Setting.quiescent_of_do? hdone hworld)
      refine ⟨moves ++ moves', story ++ story', ?_, hsuccession.append (hflag ▸ hsuccession'), ?_⟩
      · rw [Flow.run?_append, hmoves, Option.bind_some]
        dsimp only
        rw [hmoves']
        rfl
      · rw [List.filterMap_append, hreturned, hothers]
        rfl

end

end CoreEngines
