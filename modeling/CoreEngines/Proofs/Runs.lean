import CoreEngines.Machine
import Mathlib.Logic.Function.Basic

/-!
Runs as relations.  A run is told by its trace, which says what happened in which flow.  The
relation leaves open when an operation may start inside another one, so it holds the runs of a
machine, where operations start from callbacks, and also those in which interrupts come in at any
point.
-/

namespace CoreEngines

/-- One entry for each thing that happened, with the flow that it happened in. -/
abbrev History := List (Nat × Happening)

/-- The next step of a program on its own.  Nothing is said about what the world answers. -/
inductive Program.Goes {α : Type} : Program α → Happening → Program α → Prop
  | act (action : Action) (next : action.Answer → Program α) (answer : action.Answer) :
      Goes (.act action next) (.acted action answer) (next answer)
  | emit (event : TraceEvent) (next : Program α) :
      Goes (.emit event next) (.reported event) next
  | choose (next : Bool → Program α) (choice : Bool) :
      Goes (.choose next) (.chose choice) (next choice)
  | ask (callback : Callback) (next : Except Failure callback.Answer → Program α)
      (result : Except Failure callback.Answer) :
      Goes (.ask callback next) (.answered callback result) (next result)
  | call (procedure : Procedure) (next : Except Failure procedure.Answer → Program α) :
      Goes (.call procedure next) (.called procedure) (procedure.code.andThen next)

def Happening.fails : Happening → Bool
  | .answered _ (.error _) => true
  | _ => false

theorem Happening.answered_of_fails {happening : Happening} (hfails : happening.fails) :
    ∃ callback cause, happening = .answered callback (.error cause) := by
  cases happening with
  | answered callback result =>
      cases result with
      | ok answer => cases hfails
      | error cause => exact ⟨callback, cause, rfl⟩
  | _ => cases hfails

/-- What a happening makes of the world.  Only an action reads or changes it. -/
def World.After (world : World) : Happening → World → Prop
  | .acted action answer, later => world.perform? action = some (answer, later)
  | _, later => later = world

/-- One move of a flow: an operation starts on top of the others, the innermost one goes on, or
it returns. -/
inductive Flow.Moves (world : World) : Flow → Happening → World → Flow → Prop
  | start (operation : Operation) (flow : Flow) :
      Moves world flow (.started operation) world (.start operation :: flow)
  | step {operation : Operation} {rest rest' : Program operation.Reply} {happening : Happening}
      {later : World} (below : Flow) (hgoes : rest.Goes happening rest')
      (hafter : world.After happening later) :
      Moves world (⟨operation, rest⟩ :: below) happening later (⟨operation, rest'⟩ :: below)
  | finish (operation : Operation) (result : Except Failure operation.Reply) (below : Flow) :
      Moves world (⟨operation, .done result⟩ :: below) (.finished operation result) world below

/-- The states that can be reached from a world in which all flows are idle. -/
inductive Runs (start : World) : History → World → (Nat → Flow) → Prop
  | idle : Runs start [] start fun _ => []
  | move {history : History} {world later : World} {flows : Nat → Flow} {index : Nat}
      {happening : Happening} {flow : Flow} (hrun : Runs start history world flows)
      (hmove : (flows index).Moves world happening later flow) :
      Runs start (history ++ [(index, happening)]) later (Function.update flows index flow)

theorem Program.goes_of_advance? {α : Type} {world later : World} {rest rest' : Program α}
    {happening : Happening} (hadvance : rest.advance? world = some (later, rest', happening)) :
    rest.Goes happening rest' ∧ world.After happening later := by
  cases rest with
  | act action after =>
      simp only [advance?, Option.map_eq_some_iff] at hadvance
      obtain ⟨⟨answer, later⟩, hperform, heq⟩ := hadvance
      cases heq
      exact ⟨.act action _ answer, hperform⟩
  | emit event after =>
      cases hadvance
      exact ⟨.emit event _, rfl⟩
  | call procedure after =>
      cases hadvance
      exact ⟨.call procedure after, rfl⟩
  | done result => cases hadvance
  | choose after => cases hadvance
  | ask callback after => cases hadvance

theorem Flow.moves_of_move? {world later : World} {flow flow' : Flow} {move : Move}
    {happening : Happening} (hmove : flow.move? world move = some (later, flow', happening)) :
    flow.Moves world happening later flow' := by
  cases move with
  | start operation =>
      simp only [move?] at hmove
      split at hmove
      · cases hmove
        exact .start operation flow
      · cases hmove
  | step =>
      cases flow with
      | nil => cases hmove
      | cons top below =>
          obtain ⟨operation, rest⟩ := top
          simp only [move?, Option.map_eq_some_iff] at hmove
          obtain ⟨⟨later, rest', happening⟩, hadvance, heq⟩ := hmove
          cases heq
          obtain ⟨hgoes, hafter⟩ := Program.goes_of_advance? hadvance
          exact .step below hgoes hafter
  | choose choice =>
      simp only [move?] at hmove
      split at hmove
      · cases hmove
        exact .step _ (.choose _ choice) rfl
      · cases hmove
  | answer callback result =>
      simp only [move?] at hmove
      split at hmove
      · split at hmove
        case isTrue hsame =>
          subst hsame
          cases hmove
          exact .step _ (.ask callback _ result) rfl
        case isFalse => cases hmove
      · cases hmove
  | finish =>
      simp only [move?] at hmove
      split at hmove
      · cases hmove
        exact .finish _ _ _
      · cases hmove

theorem Flow.Moves.after {world later : World} {flow flow' : Flow} {happening : Happening}
    (hmoves : flow.Moves world happening later flow') : world.After happening later := by
  cases hmoves with
  | start operation => exact rfl
  | step below hgoes hafter => exact hafter
  | finish operation result below => exact rfl

namespace Runs

variable {start world : World} {history before after : History} {flows : Nat → Flow}

/-- What everything that happens to a world keeps holds in every run. -/
theorem keeps (hrun : Runs start history world flows) (Holds : History → World → Prop)
    (hidle : Holds [] start)
    (hstep : ∀ {history world happening later} (index : Nat), Holds history world →
      world.After happening later → Holds (history ++ [(index, happening)]) later) :
    Holds history world := by
  induction hrun with
  | idle => exact hidle
  | move hrun hmove ih => exact hstep _ ih hmove.after

/-- A run has been through every beginning of its history. -/
theorem beginning (hrun : Runs start (before ++ after) world flows) :
    ∃ world flows, Runs start before world flows := by
  generalize hhistory : before ++ after = history at hrun
  induction hrun generalizing after with
  | idle =>
      obtain ⟨rfl, _⟩ := List.append_eq_nil_iff.mp hhistory
      exact ⟨start, _, .idle⟩
  | move hrun hmove ih =>
      rcases List.eq_nil_or_concat after with rfl | ⟨rest, last, rfl⟩
      · rw [List.append_nil] at hhistory
        subst hhistory
        exact ⟨_, _, .move hrun hmove⟩
      · rw [List.concat_eq_append, ← List.append_assoc] at hhistory
        exact ih (List.append_inj' hhistory rfl).1

/-- Whatever happened in a run, it happened to the world that the run had come to. -/
theorem moment {index : Nat} {happening : Happening}
    (hrun : Runs start (before ++ (index, happening) :: after) world flows) :
    ∃ world later flows, Runs start before world flows ∧ world.After happening later := by
  rw [List.append_cons] at hrun
  obtain ⟨later, flows, hbeginning⟩ := hrun.beginning
  generalize hhistory : before ++ [(index, happening)] = history at hbeginning
  cases hbeginning with
  | idle => simp at hhistory
  | move hrun hmove =>
      obtain ⟨rfl, hlast⟩ := List.append_inj' hhistory rfl
      cases hlast
      exact ⟨_, later, _, hrun, hmove.after⟩

end Runs

namespace Machine

def flow (machine : Machine) (index : Nat) : Flow :=
  machine.flows.getD index []

theorem move?_moves {machine machine' : Machine} {index : Nat} {move : Move}
    {happening : Happening} (hmove : machine.move? index move = some (machine', happening)) :
    ∃ flow, (machine.flow index).Moves machine.world happening machine'.world flow ∧
      machine'.flow = Function.update machine.flow index flow := by
  simp only [move?, Option.bind_eq_some_iff, Option.map_eq_some_iff] at hmove
  obtain ⟨old, hold, ⟨later, flow, happened⟩, hflow, heq⟩ := hmove
  cases heq
  have hindex : machine.flow index = old := by simp [Machine.flow, hold]
  refine ⟨flow, hindex ▸ Flow.moves_of_move? hflow, ?_⟩
  have hinside : index < machine.flows.size := (Array.getElem?_eq_some_iff.mp hold).1
  funext other
  by_cases hother : other = index
  · subst hother
    simp [Machine.flow, hinside]
  · simp [Machine.flow, hother, Ne.symm hother]

theorem runs_move? {start : World} {history : History} {machine machine' : Machine}
    {index : Nat} {move : Move} {happening : Happening}
    (hrun : Runs start history machine.world machine.flow)
    (hmove : machine.move? index move = some (machine', happening)) :
    Runs start (history ++ [(index, happening)]) machine'.world machine'.flow := by
  obtain ⟨flow, hmoves, hflows⟩ := move?_moves hmove
  rw [hflows]
  exact .move hrun hmoves

theorem perform?_of_move? {machine machine' : Machine} {index : Nat} {move : Move}
    {action : Action} {answer : action.Answer}
    (hmove : machine.move? index move = some (machine', .acted action answer)) :
    machine.world.perform? action = some (answer, machine'.world) := by
  obtain ⟨flow, hmoves, _⟩ := move?_moves hmove
  generalize machine.flow index = old at hmoves
  cases hmoves with
  | step below hgoes hafter => exact hafter

/-- A machine that has run can run on. -/
theorem runs_run? {start : World} {history : History} {machine machine' : Machine}
    {moves : List (Nat × Move)} {happened : History}
    (hrun : Runs start history machine.world machine.flow)
    (hmoves : machine.run? moves = some (machine', happened)) :
    Runs start (history ++ happened) machine'.world machine'.flow := by
  induction moves generalizing history machine happened with
  | nil =>
      cases hmoves
      simpa using hrun
  | cons head moves ih =>
      simp only [run?, Option.bind_eq_some_iff, Option.map_eq_some_iff] at hmoves
      obtain ⟨⟨next, happening⟩, hmove, ⟨last, later⟩, hlater, heq⟩ := hmoves
      cases heq
      simpa using ih (runs_move? hrun hmove) hlater

/-- What everything that happens to a world keeps, a machine keeps. -/
theorem keeps_run? {machine machine' : Machine} {moves : List (Nat × Move)} {happened : History}
    (Holds : World → Prop)
    (hstep : ∀ {world happening later}, Holds world → world.After happening later → Holds later)
    (hmoves : machine.run? moves = some (machine', happened)) (hholds : Holds machine.world) :
    Holds machine'.world := by
  induction moves generalizing machine happened with
  | nil =>
      cases hmoves
      exact hholds
  | cons head moves ih =>
      simp only [run?, Option.bind_eq_some_iff, Option.map_eq_some_iff] at hmoves
      obtain ⟨⟨next, happening⟩, hmove, ⟨last, later⟩, hlater, heq⟩ := hmoves
      cases heq
      obtain ⟨flow, hmoves, _⟩ := move?_moves hmove
      exact ih hlater (hstep hholds hmoves.after)

/-- Every run of a machine is a run. -/
theorem runs_of_run? {start : World} {count : Nat} {machine : Machine}
    {moves : List (Nat × Move)} {history : History}
    (hmoves : (idle start count).run? moves = some (machine, history)) :
    Runs start history machine.world machine.flow := by
  have hidle : (idle start count).flow = fun _ => [] := by
    funext index
    by_cases hinside : index < count <;> simp [Machine.flow, idle, hinside]
  have hstart : Runs start [] (idle start count).world (idle start count).flow := by
    rw [hidle]
    exact .idle
  simpa using runs_run? hstart hmoves

end Machine

end CoreEngines
