import CoreEngines.Program

/-!
Delivery of messages.  Ordinary code may make the queue grow, and masks interrupts for as long as
it holds the lock: a handler on the same core would wait for that lock for ever.  A handler finds
interrupts masked already, and may use free slots only.
-/

namespace CoreEngines.Mailbox

open Program

/-- Queue a message, and make room for it if there is none. -/
def push (mailbox : Ref .mailbox) (message : Message) : Program Unit :=
  masked <| locked (.queue mailbox) do
    let length : Nat ← perform (.mailbox mailbox (.append message))
    perform (.mailbox mailbox (.publish length))

/-- Queue a message from an interrupt handler.  Without a free slot the message is dropped, and
only counted. -/
def pushFromInterrupt (mailbox : Ref .mailbox) (message : Message) : Program Unit :=
  locked (.queue mailbox) do
    let accepted : Option Nat ← perform (.mailbox mailbox (.offer message))
    match accepted with
    | some length => perform (.mailbox mailbox (.publish length))
    | none => perform (.mailbox mailbox .discard)

/-- Take all messages out of the locked queue and reserve slots for the next ones.  An empty queue
keeps the slots it has. -/
def detachAll (mailbox : Ref .mailbox) : Program (Array Message) := do
  let length : Nat ← perform (.mailbox mailbox .length)
  if length = 0 then
    return #[]
  else
    let messages : Array Message ← perform (.mailbox mailbox .detach)
    let replenished : Bool ← perform (.mailbox mailbox .replenish)
    if replenished then
      perform (.mailbox mailbox (.publish 0))
      return messages
    else
      fail .capacityOverflow

/-- Take all messages, oldest first, through the lock. -/
def drainLocked (mailbox : Ref .mailbox) : Program (Array Message) := do
  let messages ← masked (locked (.queue mailbox) (detachAll mailbox))
  if messages.isEmpty then
    return messages
  else
    report (.mailboxDrained messages.size)
    return messages

/-- Take all messages, oldest first.  While none is published the lock is left alone. -/
def drain (mailbox : Ref .mailbox) : Program (Array Message) := do
  let queued : Nat ← perform (.mailbox mailbox .peek)
  if queued = 0 then
    return #[]
  else
    drainLocked mailbox

/-- The number of messages that the queue holds without being given more slots. -/
def capacity (mailbox : Ref .mailbox) : Program Nat :=
  masked (locked (.queue mailbox) (perform (.mailbox mailbox .slots)))

end CoreEngines.Mailbox
