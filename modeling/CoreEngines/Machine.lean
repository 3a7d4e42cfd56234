import CoreEngines.Operation

/-!
Runs of many flows of control over one world.  A flow is a stack of operations: the topmost runs,
and the ones below it wait for callbacks that started what lies above them.  Flows move one at a
time and in any order; every step that another flow can see is a move of its own.
-/

namespace CoreEngines

/-- An operation that has started, with what is left of it. -/
structure Activation where
  operation : Operation
  rest : Program operation.Reply

namespace Activation

def start (operation : Operation) : Activation :=
  ⟨operation, operation.program⟩

def isAsking (activation : Activation) : Bool :=
  match activation.rest with
  | .ask _ _ => true
  | _ => false

end Activation

/-- The operations of one flow, the innermost first. -/
abbrev Flow := List Activation

/-- What one flow can be told to do. -/
inductive Move
  /-- Start an operation: in an idle flow, or from the callback that runs in it. -/
  | start (operation : Operation)
  /-- Do the next action, report, or procedure call. -/
  | step
  /-- Settle a choice of the hardware. -/
  | choose (choice : Bool)
  /-- Return from the callback that runs, or fail in it. -/
  | answer (callback : Callback) (result : Except Failure callback.Answer)
  /-- Return from the innermost operation. -/
  | finish

/-- What a move did. -/
inductive Happening
  | started (operation : Operation)
  | acted (action : Action) (answer : action.Answer)
  | reported (event : TraceEvent)
  | called (procedure : Procedure)
  | chose (choice : Bool)
  | answered (callback : Callback) (result : Except Failure callback.Answer)
  | finished (operation : Operation) (result : Except Failure operation.Reply)

/-- The next action, report or call of a program. -/
def Program.advance? {α : Type} (world : World) :
    Program α → Option (World × Program α × Happening)
  | .act action next =>
      (world.perform? action).map fun (answer, world) =>
        (world, next answer, .acted action answer)
  | .emit event next => some (world, next, .reported event)
  | .call procedure next => some (world, procedure.code.andThen next, .called procedure)
  | _ => none

/-- Move one flow, if it can move that way. -/
def Flow.move? (world : World) (flow : Flow) : Move → Option (World × Flow × Happening)
  | .start operation =>
      if flow.all (·.isAsking) then
        some (world, .start operation :: flow, .started operation)
      else none
  | .step =>
      match flow with
      | [] => none
      | ⟨operation, rest⟩ :: below =>
          (rest.advance? world).map fun (world, rest, happening) =>
            (world, ⟨operation, rest⟩ :: below, happening)
  | .choose choice =>
      match flow with
      | ⟨operation, .choose next⟩ :: below =>
          some (world, ⟨operation, next choice⟩ :: below, .chose choice)
      | _ => none
  | .answer callback result =>
      match flow with
      | ⟨operation, .ask asked next⟩ :: below =>
          if same : callback = asked then
            some (world, ⟨operation, next (same ▸ result)⟩ :: below, .answered callback result)
          else none
      | _ => none
  | .finish =>
      match flow with
      | ⟨operation, .done result⟩ :: below => some (world, below, .finished operation result)
      | _ => none

/-- A world and the flows that share it. -/
structure Machine where
  world : World
  flows : Array Flow

namespace Machine

def idle (world : World) (flows : Nat) : Machine :=
  ⟨world, Array.replicate flows []⟩

/-- Move the flow at `index`, if it can move that way. -/
def move? (machine : Machine) (index : Nat) (move : Move) : Option (Machine × Happening) :=
  machine.flows[index]?.bind fun flow =>
    (flow.move? machine.world move).map fun (world, flow, happening) =>
      (⟨world, machine.flows.setIfInBounds index flow⟩, happening)

/-- Make moves one after the other, and collect what each flow did. -/
def run? (machine : Machine) : List (Nat × Move) → Option (Machine × List (Nat × Happening))
  | [] => some (machine, [])
  | (index, move) :: moves =>
      (machine.move? index move).bind fun (machine, happening) =>
        (machine.run? moves).map fun (machine, happenings) =>
          (machine, (index, happening) :: happenings)

end Machine

end CoreEngines
