import CoreEngines.Proofs.Interrupts.Calls
import Mathlib.Data.List.Infix

/-!
Cores that take interrupts.  Each core has one interrupt flag.  While the flag is set a handler can
come in between any two steps; it finds the flag cleared, runs operations of its own, and sets the
flag when it leaves.  The cores share one world.
-/

namespace CoreEngines

/-- An operation on a core: what is left of it, the flag that it found, and what it has done. -/
structure Task where
  operation : Operation
  rest : Program operation.Reply
  found : Bool
  story : List Happening

/-- A core, with the operation that it runs now and those that handlers have come upon, the
innermost first.  An interrupt can come between two operations as well. -/
structure Core where
  enabled : Bool
  current : Option Task
  interrupted : List (Option Task)

/-- What one core can be told to do. -/
inductive Signal
  /-- Start an operation on a mailbox; a push from a handler belongs into a handler. -/
  | start (operation : Operation)
  | step
  | finish
  /-- Let a handler in. -/
  | interrupt
  /-- Go back to what the handler came upon. -/
  | leave

/-- The next step of a task.  The processor answers with the flag and clears it, or puts it
back. -/
def Task.step? (world : World) (enabled : Bool) : Task → Option (World × Bool × Task)
  | ⟨operation, .ask .mask next, found, story⟩ =>
      some (world, false,
        ⟨operation, next (.ok enabled), found, story ++ [Happening.answered .mask (.ok enabled)]⟩)
  | ⟨operation, .ask (.restore previous) next, found, story⟩ =>
      some (world, previous,
        ⟨operation, next (.ok ()), found,
          story ++ [Happening.answered (.restore previous) (.ok ())]⟩)
  | ⟨operation, rest, found, story⟩ =>
      (rest.advance? world).map fun (world, rest, happening) =>
        (world, enabled, ⟨operation, rest, found, story ++ [happening]⟩)

/-- Whether an operation may start in a handler, or outside of one. -/
def Operation.suits (operation : Operation) (handling : Bool) : Bool :=
  operation.mailbox?.isSome && (handling || !operation.fromInterrupt)

/-- Move one core, if it can move that way. -/
def Core.move? (world : World) : Core → Signal → Option (World × Core)
  | ⟨enabled, none, interrupted⟩, .start operation =>
      if operation.suits !interrupted.isEmpty then
        some (world, ⟨enabled, some ⟨operation, operation.program, enabled, []⟩, interrupted⟩)
      else none
  | ⟨enabled, some task, interrupted⟩, .step =>
      (task.step? world enabled).map fun (world, enabled, task) =>
        (world, ⟨enabled, some task, interrupted⟩)
  | ⟨enabled, some ⟨_, .done _, _, _⟩, interrupted⟩, .finish =>
      some (world, ⟨enabled, none, interrupted⟩)
  | ⟨true, current, interrupted⟩, .interrupt =>
      some (world, ⟨false, none, current :: interrupted⟩)
  | ⟨_, none, below :: interrupted⟩, .leave => some (world, ⟨true, below, interrupted⟩)
  | _, _ => none

/-- All that a move of a core can do. -/
inductive Core.Moves (world : World) : Core → World → Core → Prop
  | start {enabled : Bool} {interrupted : List (Option Task)} {operation : Operation}
      (hsuits : operation.suits !interrupted.isEmpty) :
      Moves world ⟨enabled, none, interrupted⟩ world
        ⟨enabled, some ⟨operation, operation.program, enabled, []⟩, interrupted⟩
  | step {enabled enabled' : Bool} {task task' : Task} {interrupted : List (Option Task)}
      {later : World} (hstep : task.step? world enabled = some (later, enabled', task')) :
      Moves world ⟨enabled, some task, interrupted⟩ later ⟨enabled', some task', interrupted⟩
  | finish {enabled : Bool} {task : Task} {interrupted : List (Option Task)}
      {result : Except Failure task.operation.Reply} (hdone : task.rest = .done result) :
      Moves world ⟨enabled, some task, interrupted⟩ world ⟨enabled, none, interrupted⟩
  | interrupt (current : Option Task) (interrupted : List (Option Task)) :
      Moves world ⟨true, current, interrupted⟩ world ⟨false, none, current :: interrupted⟩
  | leave (enabled : Bool) (below : Option Task) (interrupted : List (Option Task)) :
      Moves world ⟨enabled, none, below :: interrupted⟩ world ⟨true, below, interrupted⟩

theorem Core.moves_of_move? {world later : World} {core core' : Core} {signal : Signal}
    (hmove : core.move? world signal = some (later, core')) : core.Moves world later core' := by
  unfold move? at hmove
  split at hmove
  · split at hmove
    case isTrue hsuits =>
      cases hmove
      exact .start hsuits
    case isFalse => cases hmove
  · simp only [Option.map_eq_some_iff] at hmove
    obtain ⟨⟨world', enabled', task'⟩, hstep, heq⟩ := hmove
    cases heq
    exact .step hstep
  · cases hmove
    exact .finish rfl
  · cases hmove
    exact .interrupt _ _
  · cases hmove
    exact .leave _ _ _
  · cases hmove

structure Cores where
  world : World
  cores : Array Core

namespace Cores

def idle (mailboxes : Array Mailbox) (flags : List Bool) : Cores :=
  ⟨{ mailboxes }, (flags.map fun flag => ⟨flag, none, []⟩).toArray⟩

def move? (state : Cores) (index : Nat) (signal : Signal) : Option Cores :=
  state.cores[index]?.bind fun core =>
    (core.move? state.world signal).map fun (world, core) =>
      ⟨world, state.cores.setIfInBounds index core⟩

def run? (state : Cores) : List (Nat × Signal) → Option Cores
  | [] => some state
  | (index, signal) :: signals => (state.move? index signal).bind fun state => state.run? signals

theorem moves_of_move? {state state' : Cores} {index : Nat} {signal : Signal}
    (hmove : state.move? index signal = some state') :
    ∃ core core', state.cores[index]? = some core ∧
      core.Moves state.world state'.world core' ∧
        state'.cores = state.cores.setIfInBounds index core' := by
  simp only [move?, Option.bind_eq_some_iff, Option.map_eq_some_iff] at hmove
  obtain ⟨core, hcore, ⟨later, core'⟩, hmove, rfl⟩ := hmove
  exact ⟨core, core', hcore, Core.moves_of_move? hmove, rfl⟩

end Cores

namespace Call

def sets (flag : Bool) : Call → Bool
  | save _ => false
  | restore previous => previous
  | _ => flag

def keeps (lock : Lock) (held : Bool) : Call → Bool
  | acquire taken => held || taken = lock
  | release freed => held && freed ≠ lock
  | _ => held

def flag (found : Bool) (made : List Call) : Bool :=
  made.foldl sets found

def holds (lock : Lock) (made : List Call) : Bool :=
  made.foldl (keeps lock) false

variable {target : Ref .mailbox} {found previous : Bool} {made : List Call} {lock : Lock}

theorem prefix_shielded_iff : made <+: shielded target previous ↔
    made = [] ∨ made = [save previous] ∨ made = [save previous, acquire (.queue target)] ∨
      made = [save previous, acquire (.queue target), release (.queue target)] ∨
        made = shielded target previous := by
  rw [← List.mem_inits]
  simp [shielded, List.inits]

theorem prefix_bare_iff : made <+: bare target ↔
    made = [] ∨ made = [acquire (.queue target)] ∨ made = bare target := by
  rw [← List.mem_inits]
  simp [bare, List.inits]

theorem flag_of_prefix_shielded (hbegins : made <+: shielded target previous)
    (hholds : holds lock made) : flag found made = false := by
  rcases prefix_shielded_iff.mp hbegins with rfl | rfl | rfl | rfl | rfl <;>
    simp_all [shielded, holds, keeps, flag, sets]

theorem flag_of_prefix_bare (hbegins : made <+: bare target) : flag found made = found := by
  rcases prefix_bare_iff.mp hbegins with rfl | rfl | rfl <;> rfl

theorem nil_of_prefix_shielded {flag : Bool}
    (hbegins : made ++ [save flag] <+: shielded target previous) : made = [] := by
  rcases prefix_shielded_iff.mp hbegins with hmade | hmade | hmade | hmade | hmade
  · simp at hmade
  · have hlength := congrArg List.length hmade
    simpa using hlength
  all_goals
    have hlast := congrArg List.getLast? hmade
    simp [shielded] at hlast

theorem not_prefix_bare {flag : Bool} : ¬ made ++ [save flag] <+: bare target := by
  intro hbegins
  rcases prefix_bare_iff.mp hbegins with hmade | hmade | hmade <;>
    · have hlast := congrArg List.getLast? hmade
      simp [bare] at hlast

/-- Before a lock is taken none is held. -/
theorem not_holds_of_acquire {taken : Lock} (previous : Bool)
    (hbegins : made ++ [acquire taken] <+: bare target ∨
      made ++ [acquire taken] <+: shielded target previous) : ¬ holds lock made := by
  have hmade : made = [] ∨ made = [save previous] := by
    rcases hbegins with hbegins | hbegins
    · rcases prefix_bare_iff.mp hbegins with hmade | hmade | hmade
      · simp at hmade
      · exact Or.inl (by simpa using congrArg List.dropLast hmade)
      · simpa [bare] using congrArg List.getLast? hmade
    · rcases prefix_shielded_iff.mp hbegins with hmade | hmade | hmade | hmade | hmade
      · simp at hmade
      · exact Or.inl (by simpa using congrArg List.dropLast hmade)
      · exact Or.inr (by simpa using congrArg List.dropLast hmade)
      · simpa using congrArg List.getLast? hmade
      · simpa [shielded] using congrArg List.getLast? hmade
  rcases hmade with rfl | rfl <;> simp [holds, keeps]

end Call

end CoreEngines
