/-!
Physical cores.  The number of a core is also the place of its engine in the engine table.
-/

namespace CoreEngines

/-- A physical core, named by its number. -/
structure CoreId where
  number : UInt32
deriving DecidableEq, Repr, Inhabited

namespace CoreId

instance : Ord CoreId where
  compare left right := compare left.number right.number

/-- The place of the core's engine in the engine table. -/
def index (core : CoreId) : Nat :=
  core.number.toNat

def display (core : CoreId) : String :=
  "core" ++ toString core.number.toNat

def inspect (core : CoreId) : String :=
  "CoreId(" ++ toString core.number.toNat ++ ")"

end CoreId

end CoreEngines
