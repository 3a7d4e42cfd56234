/-!
Cells that are filled once.  Whoever finds the cell vacant builds its value while all others wait;
a builder that fails leaves the cell vacant for the next.
-/

namespace CoreEngines

/-- A cell that holds no value yet, whose value is being built, or that holds it for good. -/
inductive OnceCell (α : Type)
  | vacant
  | building
  | ready (value : α)
deriving DecidableEq, Repr

namespace OnceCell

variable {α : Type}

def value? : OnceCell α → Option α
  | ready value => some value
  | _ => none

/-- What a claimant is told: the value, or that it is the one to build it. -/
inductive Claim (α : Type)
  | ready (value : α)
  | granted
deriving DecidableEq, Repr

/-- Claim the cell; a cell that is being built makes the claimant wait. -/
def claim? : OnceCell α → Option (Claim α × OnceCell α)
  | vacant => some (.granted, building)
  | building => none
  | ready value => some (.ready value, ready value)

def abandon : OnceCell α → OnceCell α
  | building => vacant
  | cell => cell

def fill (value : α) : OnceCell α → OnceCell α
  | ready old => ready old
  | _ => ready value

end OnceCell

end CoreEngines
