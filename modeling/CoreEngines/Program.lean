import CoreEngines.Callback
import CoreEngines.Trace
import CoreEngines.World

/-!
Programs: operations as trees of single steps.  A program does one action on the world, reports an
event, asks a callback, meets an outcome that the hardware is free to choose, or calls a procedure
that goes on for as long as it takes; each answer selects the rest.  So whatever happens between
two steps, be it another core, an interrupt or a callback that comes back into the engines,
happens between two nodes of the tree.
-/

namespace CoreEngines

/-- The procedures without a bound on their length. -/
inductive Procedure
  /-- Claim the serial that a counter was seen to hold. -/
  | claimSerial (counter : Ref .counter) (seen : UInt64)
  /-- Run quanta until the manager exits. -/
  | runLoop (context : Ref .context)
  /-- Wait for interrupts for ever. -/
  | idle
deriving DecidableEq, Repr

abbrev Procedure.Answer : Procedure → Type
  | claimSerial _ _ => UInt64
  | runLoop _ | idle => Unit

/-- A computation that ends in a value or a failure. -/
inductive Program (α : Type) : Type
  | done (result : Except Failure α)
  | act (action : Action) (next : action.Answer → Program α)
  | emit (event : TraceEvent) (next : Program α)
  | choose (next : Bool → Program α)
  | ask (callback : Callback) (next : Except Failure callback.Answer → Program α)
  | call (procedure : Procedure) (next : Except Failure procedure.Answer → Program α)

namespace Program

variable {α β γ : Type}

/-- Go on with `next` however the program ends. -/
def andThen (program : Program α) (next : Except Failure α → Program β) : Program β :=
  match program with
  | .done result => next result
  | .act action rest => .act action fun answer => (rest answer).andThen next
  | .emit event rest => .emit event (rest.andThen next)
  | .choose rest => .choose fun choice => (rest choice).andThen next
  | .ask callback rest => .ask callback fun answer => (rest answer).andThen next
  | .call procedure rest => .call procedure fun answer => (rest answer).andThen next

/-- Go on with the value; a failure skips `next`. -/
def bind (program : Program α) (next : α → Program β) : Program β :=
  program.andThen fun
    | .ok value => next value
    | .error failure => .done (.error failure)

instance : Monad Program where
  pure value := .done (.ok value)
  bind := bind

theorem andThen_assoc (program : Program α) (first : Except Failure α → Program β)
    (second : Except Failure β → Program γ) :
    (program.andThen first).andThen second =
      program.andThen fun result => (first result).andThen second := by
  induction program with
  | done result => rfl
  | act action rest ih => simp only [andThen]; congr 1; funext answer; exact ih answer
  | emit event rest ih => simp only [andThen]; congr 1
  | choose rest ih => simp only [andThen]; congr 1; funext choice; exact ih choice
  | ask callback rest ih => simp only [andThen]; congr 1; funext answer; exact ih answer
  | call procedure rest ih => simp only [andThen]; congr 1; funext answer; exact ih answer

theorem andThen_done (program : Program α) : program.andThen done = program := by
  induction program with
  | done result => rfl
  | act action rest ih => simp only [andThen]; congr 1; funext answer; exact ih answer
  | emit event rest ih => simp only [andThen]; congr 1
  | choose rest ih => simp only [andThen]; congr 1; funext choice; exact ih choice
  | ask callback rest ih => simp only [andThen]; congr 1; funext answer; exact ih answer
  | call procedure rest ih => simp only [andThen]; congr 1; funext answer; exact ih answer

def fail (failure : Failure) : Program α :=
  .done (.error failure)

def raise (violation : Violation) : Program α :=
  fail (.violation violation)

/-- The program of a check: its value, or the violation that it found. -/
def ofCheck : Except Violation α → Program α
  | .ok value => pure value
  | .error violation => raise violation

def perform (action : Action) : Program action.Answer :=
  .act action fun answer => pure answer

def report (event : TraceEvent) : Program Unit :=
  .emit event (pure ())

def request (callback : Callback) : Program callback.Answer :=
  .ask callback .done

def invoke (procedure : Procedure) : Program procedure.Answer :=
  .call procedure .done

/-- Leave a choice to the hardware. -/
def chance : Program Bool :=
  .choose fun choice => pure choice

/-- Run `cleanup` on every way out of `body`.  A cleanup that fails while a failure of `body` is
unwinding leaves nothing to go back to. -/
def withCleanup (body : Program α) (cleanup : Program Unit) : Program α :=
  body.andThen fun result =>
    cleanup.andThen fun
      | .ok () => .done result
      | .error failure =>
          match result with
          | .ok _ => fail failure
          | .error _ => fail .aborted

/-- Run `body` while `lock` is held. -/
def locked (lock : Lock) (body : Program α) : Program α := do
  perform (.acquire lock)
  body.withCleanup (perform (.release lock))

/-- Run `body` with interrupts masked on this core; afterwards they are as before. -/
def masked (body : Program α) : Program α := do
  let previous ← request .mask
  body.withCleanup (request (.restore previous))

end Program

end CoreEngines
