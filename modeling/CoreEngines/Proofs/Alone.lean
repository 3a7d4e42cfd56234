import CoreEngines.Proofs.Chronicles
import CoreEngines.Schedule

/-!
Programs on their own.  While nothing else happens a program has one outcome, and a flow of any
machine comes to the same one if it is the only flow that moves.
-/

namespace CoreEngines

namespace Program

variable {α β : Type} {respond : Respond} {world later : World}

/-- What a program comes to while nothing else happens: callbacks answer at once, and exchanges
never fail by chance.  There is no outcome if the program has to wait, or calls a procedure. -/
def alone? (respond : Respond) : Program α → World → Option (Except Failure α × World)
  | .done result, world => some (result, world)
  | .act action next, world =>
      (world.perform? action).bind fun (answer, later) => (next answer).alone? respond later
  | .emit _ next, world => next.alone? respond world
  | .choose next, world => (next false).alone? respond world
  | .ask callback next, world => (next (respond callback)).alone? respond world
  | .call _ _, _ => none

@[simp]
theorem alone?_andThen (program : Program α) (next : Except Failure α → Program β)
    (world : World) : (program.andThen next).alone? respond world =
      (program.alone? respond world).bind fun (result, later) =>
        (next result).alone? respond later := by
  induction program generalizing world with
  | done result => rfl
  | act action rest ih =>
      simp only [andThen, alone?]
      cases world.perform? action with
      | none => rfl
      | some performed => exact ih performed.1 performed.2
  | emit event rest ih => exact ih world
  | choose rest ih => exact ih false world
  | ask callback rest ih => exact ih _ world
  | call procedure rest ih => rfl

@[simp]
theorem alone?_pure (value : α) (world : World) :
    (pure value : Program α).alone? respond world = some (.ok value, world) :=
  rfl

@[simp]
theorem alone?_bind (program : Program α) (next : α → Program β) (world : World) :
    (program >>= next).alone? respond world =
      (program.alone? respond world).bind fun
        | (.ok value, later) => (next value).alone? respond later
        | (.error failure, later) => some (.error failure, later) := by
  change (program.andThen _).alone? respond world = _
  rw [alone?_andThen]
  congr 1
  funext (result, later)
  cases result <;> rfl

@[simp]
theorem alone?_perform (action : Action) (world : World) :
    alone? (α := no_index action.Answer) respond (perform action) world =
      (world.perform? action).map fun (answer, later) => (.ok answer, later) := by
  rw [perform, alone?]
  cases world.perform? action <;> rfl

@[simp]
theorem alone?_report (event : TraceEvent) (world : World) :
    (report event).alone? respond world = some (.ok (), world) :=
  rfl

@[simp]
theorem alone?_request (callback : Callback) (world : World) :
    alone? (α := no_index callback.Answer) respond (request callback) world =
      some (respond callback, world) :=
  rfl

theorem alone?_locked {lock : Lock} {body : Program α} {result : Except Failure α}
    (hfree : lock ∉ world.held)
    (hbody : body.alone? respond { world with held := lock :: world.held } = some (result, later)) :
    (locked lock body).alone? respond world =
      some (result, { later with held := later.held.erase lock }) := by
  simp [locked, withCleanup, World.perform?, hfree, hbody, alone?]

/-- Masking interrupts makes no difference where nothing else happens. -/
theorem alone?_masked {body : Program α} {previous : Bool} (hmask : respond .mask = .ok previous)
    (hrestore : respond (.restore previous) = .ok ()) (world : World) :
    (masked body).alone? respond world = body.alone? respond world := by
  simp only [masked, withCleanup, alone?_bind, alone?_request, hmask, hrestore, Option.bind_some,
    alone?_andThen, alone?]
  exact Option.bind_fun_some _

end Program

/-- What the first part of an operation comes to alone, it comes to in a flow of its own. -/
theorem Flow.run?_of_alone {α : Type} {operation : Operation} {respond : Respond}
    {world later : World} {program : Program α} {result : Except Failure α}
    (next : Except Failure α → Program operation.Reply) (below : Flow)
    (halone : program.alone? respond world = some (result, later)) :
    ∃ moves made, Flow.run? world (⟨operation, program.andThen next⟩ :: below) moves =
      some (later, ⟨operation, next result⟩ :: below, made) ∧
        program.Reaches made (.done result) := by
  induction program generalizing world with
  | done outcome =>
      cases halone
      exact ⟨[], [], rfl, .stay _⟩
  | act action rest ih =>
      obtain ⟨⟨answer, middle⟩, hperform, hrest⟩ := Option.bind_eq_some_iff.mp halone
      obtain ⟨moves, made, hmoves, hmade⟩ := ih answer hrest
      exact ⟨_, _, Flow.run?_act hperform hmoves, .step (.act action rest answer) hmade⟩
  | emit event rest ih =>
      obtain ⟨moves, made, hmoves, hmade⟩ := ih halone
      refine ⟨.step :: moves, .reported event :: made, ?_, .step (.emit event rest) hmade⟩
      simp only [Program.andThen, Flow.run?, Flow.move?, Program.advance?, Option.map_some,
        Option.bind_some, hmoves]
  | choose rest ih =>
      obtain ⟨moves, made, hmoves, hmade⟩ := ih false halone
      refine ⟨.choose false :: moves, .chose false :: made, ?_, .step (.choose rest false) hmade⟩
      simp only [Program.andThen, Flow.run?, Flow.move?, Option.map_some, Option.bind_some, hmoves]
  | ask callback rest ih =>
      obtain ⟨moves, made, hmoves, hmade⟩ := ih (respond callback) halone
      exact ⟨_, _, Flow.run?_answer hmoves, .step (.ask callback rest _) hmade⟩
  | call procedure rest ih => cases halone

/-- An operation that comes to something alone can be run in a flow that is idle or waits for a
callback, from its start to its return. -/
theorem Flow.run?_operation {operation : Operation} {respond : Respond} {world later : World}
    {result : Except Failure operation.Reply} (below : Flow) (hasking : below.all (·.isAsking))
    (halone : operation.program.alone? respond world = some (result, later)) :
    ∃ moves steps, Flow.run? world below moves =
      some (later, below, .started operation :: (steps ++ [.finished operation result])) ∧
        ∀ happening ∈ steps, happening.isStep := by
  obtain ⟨moves, made, hmoves, hmade⟩ := Flow.run?_of_alone .done below halone
  rw [Program.andThen_done] at hmoves
  refine ⟨.start operation :: (moves ++ [.finish]), made, ?_, hmade.isStep⟩
  apply Flow.run?_start hasking rfl
  rw [Flow.run?_append, hmoves]
  rfl

end CoreEngines
