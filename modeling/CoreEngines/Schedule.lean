import CoreEngines.Machine

/-!
A fair schedule.  The flows of a machine take turns; in its turn a flow makes a few moves, unless
something keeps it waiting.
-/

namespace CoreEngines

/-- Answers to callbacks that never change. -/
abbrev Respond := (callback : Callback) → Except Failure callback.Answer

/-- The answers of a core with interrupts enabled, where nothing schedules threads. -/
def Respond.bare : Respond
  | .mask => .ok true
  | .restore _ => .ok ()
  | _ => .error (.foreign "nothing to answer")

/-- The move that a flow is ready for, and the operations that it has still to start.  There is
none when nothing is left to do, and while the next action has to wait.  Exchanges never fail by
chance. -/
def Flow.ready? (respond : Respond) (world : World) (flow : Flow) (todo : List Operation) :
    Option (Move × List Operation) :=
  match flow, todo with
  | [], [] => none
  | [], operation :: todo => some (.start operation, todo)
  | ⟨_, .done _⟩ :: _, todo => some (.finish, todo)
  | ⟨_, .act action _⟩ :: _, todo => if world.waits action then none else some (.step, todo)
  | ⟨_, .choose _⟩ :: _, todo => some (.choose false, todo)
  | ⟨_, .ask callback _⟩ :: _, todo => some (.answer callback (respond callback), todo)
  | _, todo => some (.step, todo)

namespace Machine

/-- A machine together with what each flow has still to start and what has happened so far. -/
structure Play where
  machine : Machine
  todo : Array (List Operation)
  happened : Array (Nat × Happening)

namespace Play

def isOver (play : Play) : Bool :=
  play.todo.all (·.isEmpty) && play.machine.flows.all (·.isEmpty)

/-- Let the flow at `index` make the move that it is ready for, if any.  Nothing comes of a move
that cannot be made, such as one on an object that does not exist. -/
def move? (respond : Respond) (play : Play) (index : Nat) : Option Play :=
  let flow := play.machine.flows.getD index []
  match flow.ready? respond play.machine.world (play.todo.getD index []) with
  | none => some play
  | some (move, todo) =>
      (play.machine.move? index move).map fun (machine, happening) =>
        { machine
          todo := play.todo.setIfInBounds index todo
          happened := play.happened.push (index, happening) }

/-- The most moves that a flow makes in its turn. -/
def burst : Nat := 5

/-- Give the flow at `index` its turn. -/
def turn? (respond : Respond) (play : Play) (index : Nat) : Option Play :=
  (List.replicate burst index).foldlM (move? respond) play

/-- Give every flow as many turns as there are `rounds`, unless the play is over before. -/
def rounds? (respond : Respond) : (rounds : Nat) → Play → Option Play
  | 0, play => some play
  | rounds + 1, play =>
      if play.isOver then some play
      else
        match (List.range play.todo.size).foldlM (turn? respond) play with
        | none => none
        | some play => rounds? respond rounds play

end Play

/-- Run the operations of each flow, all flows at once.  An operation that runs to its end takes
some dozens of moves, and an exchange that another flow makes fail is tried again, so the rounds
are more than it takes. -/
def together? (respond : Respond) (world : World) (work : List (List Operation)) : Option Play :=
  let rounds := 100 * (work.length + 1) * (work.flatten.length + 1)
  Play.rounds? respond rounds ⟨.idle world work.length, work.toArray, #[]⟩

end Machine

end CoreEngines
