import CoreEngines.Machine

/-!
Schedules.  What a flow is to do is a list of moves, and what a machine is to do are the moves of
its flows, taken in turns.  These are the pieces that such lists are put together from.
-/

namespace CoreEngines.Schedule

/-- A flow makes these moves, and no other one makes any meanwhile. -/
def inFlow (flow : Nat) (moves : List Move) : List (Nat × Move) :=
  moves.map fun move => (flow, move)

def steps (count : Nat) : List Move :=
  List.replicate count .step

/-- An operation is run that asks for nothing. -/
def along (operation : Operation) (count : Nat) : List Move :=
  [Move.start operation] ++ steps count ++ [Move.finish]

/-- An operation is run that masks interrupts, which are enabled, around `inside` of its steps. -/
def around (operation : Operation) (before inside after : Nat) : List Move :=
  [Move.start operation] ++ steps before ++ [Move.answer .mask (.ok true)] ++ steps inside ++
    [Move.answer (.restore true) (.ok ())] ++ steps after ++ [Move.finish]

/-- A thread is created, whose serial is claimed at the first attempt. -/
def creating (registry : Ref .registry) : List Move :=
  [Move.start (.create registry)] ++ steps 3 ++ [Move.choose false] ++ steps 8 ++ [Move.finish]

/-- A context is made, which is given this manager. -/
def makingContext (core : CoreId) (admission : Admission) (registry : Ref .registry)
    (manager : ManagerRef) : List Move :=
  [Move.start (.makeContext core false admission registry),
    .answer (.createManager core false) (.ok manager)] ++ steps 2 ++ [Move.finish]

/-- An engine is entered for the first time, as far as to the making of its manager. -/
def entering (engine : Ref .engine) (core : CoreId) : List Move :=
  [Move.start (.enter engine)] ++ steps 3 ++ [Move.answer .currentCore (.ok core)] ++ steps 2

end CoreEngines.Schedule
