import CoreEngines.Mailbox.Slots
import CoreEngines.Message.Basic

/-!
The mailbox of one thread: its queue of messages under a lock, the slots that the queue has, and
two counters that are read without the lock.
-/

namespace CoreEngines

/-- A queue of messages, oldest first.  `queued` is the length of the queue as last published to
those who read it without the lock; `dropped` counts the messages that found no free slot. -/
structure Mailbox where
  reserve : Nat
  queue : Array Message
  slots : Nat
  queued : Nat
  dropped : UInt64
deriving DecidableEq, Inhabited

namespace Mailbox

/-- A new mailbox has exactly the slots that it is to reserve. -/
def new (reserve : Nat) : Mailbox where
  reserve := reserve
  queue := #[]
  slots := reserve
  queued := 0
  dropped := 0

/-- What one access to a mailbox can do.  All but `peek` and `discard` belong under the lock. -/
inductive Access
  /-- Read the published length. -/
  | peek
  | length
  | slots
  /-- Append, and make room first if the queue is full. -/
  | append (message : Message)
  /-- Append if a slot is free. -/
  | offer (message : Message)
  | publish (length : Nat)
  /-- Count a message that is dropped. -/
  | discard
  /-- Take the queue away and leave one without slots. -/
  | detach
  /-- Reserve slots for the next messages. -/
  | replenish
deriving DecidableEq

/-- An append answers the new length, and an offer does if it was accepted; replenishing answers
whether the slots could be had. -/
abbrev Access.Answer : Access → Type
  | .peek | .length | .slots | .append _ => Nat
  | .offer _ => Option Nat
  | .publish _ | .discard => Unit
  | .detach => Array Message
  | .replenish => Bool

def append (mailbox : Mailbox) (message : Message) : Mailbox :=
  let slots :=
    if mailbox.queue.size < mailbox.slots then mailbox.slots else Slots.grown mailbox.slots
  { mailbox with queue := mailbox.queue.push message, slots }

def access (mailbox : Mailbox) : (access : Access) → access.Answer × Mailbox
  | .peek => (mailbox.queued, mailbox)
  | .length => (mailbox.queue.size, mailbox)
  | .slots => (mailbox.slots, mailbox)
  | .append message => (mailbox.queue.size + 1, mailbox.append message)
  | .offer message =>
      if mailbox.queue.size < mailbox.slots then
        (some (mailbox.queue.size + 1), mailbox.append message)
      else (none, mailbox)
  | .publish length => ((), { mailbox with queued := length })
  | .discard => ((), { mailbox with dropped := mailbox.dropped + 1 })
  | .detach => (mailbox.queue, { mailbox with queue := #[], slots := 0 })
  | .replenish =>
      if Slots.allocatable (Slots.replenished mailbox.reserve) then
        (true, { mailbox with slots := Slots.replenished mailbox.reserve })
      else (false, mailbox)

def inspect (mailbox : Mailbox) : String :=
  Text.openRecord "Mailbox"
    [⟨"queued", toString mailbox.queued⟩,
     ⟨"dropped", toString mailbox.dropped.toNat⟩,
     ⟨"reserve", toString mailbox.reserve⟩]

end Mailbox

end CoreEngines
