/-!
Message slots.  A queue holds as many messages as it has slots before it must be given more, and
an interrupt handler can deliver into free slots only.
-/

namespace CoreEngines.Slots

/-- The space that one message takes. -/
def messageBytes : Nat := 56

/-- The largest block of memory that can be asked for. -/
def addressLimit : Nat := 0x7fffffffffffffff

/-- Whether that many slots can be asked for at all. -/
def allocatable (slots : Nat) : Bool :=
  slots * messageBytes ≤ addressLimit

/-- The slots of a full queue after it has made room for one more message: twice as many, at
least one more, and no fewer than four. -/
def grown (slots : Nat) : Nat :=
  max (2 * slots) (max (slots + 1) 4)

/-- The slots that a queue without any gets when `reserve` are asked for. -/
def replenished (reserve : Nat) : Nat :=
  if reserve = 0 then 0 else max reserve 4

example : grown 0 = 4 := rfl
example : grown 5 = 10 := rfl
example : replenished 2 = 4 := rfl

end CoreEngines.Slots
