import CoreEngines.Program

/-!
Creation of threads.  Any core may create a thread in any registry at any time; the thread is
recorded in the roster and staged until the engine's context drains the registry.
-/

namespace CoreEngines

open Program

namespace SerialCounter

/-- Hand out the next serial of a counter. -/
def claim (counter : Ref .counter) : Program UInt64 := do
  let seen : UInt64 ← perform (.counter counter .load)
  invoke (.claimSerial counter seen)

/-- Exchange the serial that was seen for its successor.  The exchange may fail by chance, and
does fail if another claim got in between; then the word found instead is tried. -/
def claimStep (counter : Ref .counter) (seen : UInt64) : Program UInt64 := do
  let spurious ← chance
  if spurious then
    let found : UInt64 ← perform (.counter counter .load)
    invoke (.claimSerial counter found)
  else
    let outcome : Option UInt64 ←
      perform (.counter counter (.exchange seen (Serial.after seen)))
    match outcome with
    | none => return seen
    | some found => invoke (.claimSerial counter found)

end SerialCounter

namespace Mailbox

/-- Make a mailbox with `reserve` slots. -/
def make (reserve : Nat) : Program (Ref .mailbox) := do
  let made : Option (Ref .mailbox) ← perform (.newMailbox reserve)
  match made with
  | some mailbox => return mailbox
  | none => fail .capacityOverflow

end Mailbox

namespace Registry

/-- Make an empty registry, whose threads get mailboxes with `reserve` slots. -/
def make (core : CoreId) (reserve : Nat) : Program (Ref .registry) := do
  let counter : Ref .counter ← perform (.newCounter .initial)
  perform (.newRegistry core reserve counter)

/-- Create a thread.  A mailbox that cannot be had costs a serial and leaves the lists alone. -/
def create (registry : Ref .registry) : Program (Ref .thread) := do
  let shape : Shape ← perform (.registry registry .shape)
  let serial ← SerialCounter.claim shape.counter
  let mailbox ← Mailbox.make shape.reserve
  let id : ThreadId := ⟨shape.core, serial⟩
  let thread : Ref .thread ← perform (.newThread id mailbox)
  locked (.roster registry) do
    let count : Nat ← perform (.registry registry (.enroll thread))
    perform (.registry registry (.publish count))
  report (.threadCreated id)
  return thread

/-- Take the staged threads through the lock. -/
def takeStagedLocked (registry : Ref .registry) : Program (Array (Ref .thread)) :=
  locked (.roster registry) (perform (.registry registry .detach))

/-- Take the threads that were staged since the last time.  While no thread was ever created the
lock is left alone. -/
def takeStaged (registry : Ref .registry) : Program (Array (Ref .thread)) := do
  let count : Nat ← perform (.registry registry .peek)
  if count = 0 then
    return #[]
  else
    takeStagedLocked registry

def threads (registry : Ref .registry) : Program (Array (Ref .thread)) :=
  locked (.roster registry) (perform (.registry registry .roster))

end Registry

end CoreEngines
