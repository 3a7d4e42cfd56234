import CoreEngines.Proofs.Footprints

/-!
Calls to the processor and to locks.  An operation on a mailbox makes few of them, and in a fixed
order: whoever masks interrupts does so around the lock, and puts back what it found.
-/

namespace CoreEngines

/-- What an operation asks of the interrupt flag of its core, and of locks. -/
inductive Call
  /-- Find out the flag and clear it. -/
  | save (flag : Bool)
  | restore (flag : Bool)
  | acquire (lock : Lock)
  | release (lock : Lock)
deriving DecidableEq

namespace Call

def of? : Happening → Option Call
  | .answered .mask (.ok flag) => some (.save flag)
  | .answered (.restore flag) _ => some (.restore flag)
  | .acted (.acquire lock) _ => some (.acquire lock)
  | .acted (.release lock) _ => some (.release lock)
  | _ => none

/-- The calls of a push from a handler: the interrupts are left alone. -/
def bare (target : Ref .mailbox) : List Call :=
  [.acquire (.queue target), .release (.queue target)]

/-- The calls of all others that take the lock. -/
def shielded (target : Ref .mailbox) (flag : Bool) : List Call :=
  [.save flag, .acquire (.queue target), .release (.queue target), .restore flag]

end Call

def calls (story : List Happening) : List Call :=
  story.filterMap Call.of?

def Mailbox.peeked? (target : Ref .mailbox) : Happening → Option Nat
  | .acted (.mailbox place .peek) length => if place = target then some length else none
  | _ => none

def Mailbox.peeks (target : Ref .mailbox) (story : List Happening) : List Nat :=
  story.filterMap (peeked? target)

namespace Operation

/-- The calls that an operation on a mailbox can have made at any point.  A drain makes none unless
it has read that messages are queued. -/
def Calling : Operation → List Happening → Prop
  | pushFromInterrupt target _, story => calls story <+: Call.bare target
  | push target _, story | drainLocked target, story | capacity target, story =>
      ∃ flag, calls story <+: Call.shielded target flag
  | drain target, story => calls story = [] ∨
      ∃ queued flag, queued ≠ 0 ∧ Mailbox.peeks target story = [queued] ∧
        calls story <+: Call.shielded target flag
  | _, _ => True

/-- The calls that an operation on a mailbox has made when it returns, whatever it returns. -/
def Called : Operation → List Happening → Prop
  | pushFromInterrupt target _, story => calls story = Call.bare target
  | push target _, story | drainLocked target, story | capacity target, story =>
      ∃ flag, calls story = Call.shielded target flag
  | drain target, story => Mailbox.peeks target story = [0] ∧ calls story = [] ∨
      ∃ queued flag, queued ≠ 0 ∧ Mailbox.peeks target story = [queued] ∧
        calls story = Call.shielded target flag
  | _, _ => True

variable {operation : Operation} {story : List Happening}

theorem calling_nil (operation : Operation) : operation.Calling [] := by
  cases operation with
  | push target message => exact ⟨true, List.nil_prefix⟩
  | drainLocked target => exact ⟨true, List.nil_prefix⟩
  | capacity target => exact ⟨true, List.nil_prefix⟩
  | drain target => exact Or.inl rfl
  | pushFromInterrupt target message => exact List.nil_prefix
  | _ => trivial

/-- An operation is at most inside of one section, which is shielded outside of handlers. -/
theorem calling_cases (hmailbox : operation.mailbox?.isSome) (hcalling : operation.Calling story) :
    (operation.fromInterrupt ∧ ∃ target, calls story <+: Call.bare target) ∨
      operation.fromInterrupt = false ∧
        ∃ target flag, calls story <+: Call.shielded target flag := by
  cases operation with
  | push target message => exact Or.inr ⟨rfl, target, hcalling⟩
  | drainLocked target => exact Or.inr ⟨rfl, target, hcalling⟩
  | capacity target => exact Or.inr ⟨rfl, target, hcalling⟩
  | drain target =>
      refine Or.inr ⟨rfl, target, ?_⟩
      rcases hcalling with hnone | ⟨_, flag, _, _, hbegins⟩
      · exact ⟨true, hnone ▸ List.nil_prefix⟩
      · exact ⟨flag, hbegins⟩
  | pushFromInterrupt target message => exact Or.inl ⟨rfl, target, hcalling⟩
  | _ => cases hmailbox

/-- An operation that has returned has been through one section, or none. -/
theorem called_cases (hmailbox : operation.mailbox?.isSome) (hcalled : operation.Called story) :
    calls story = [] ∨ (∃ target, calls story = Call.bare target) ∨
      ∃ target flag, calls story = Call.shielded target flag := by
  cases operation with
  | push target message => exact Or.inr (Or.inr ⟨target, hcalled⟩)
  | drainLocked target => exact Or.inr (Or.inr ⟨target, hcalled⟩)
  | capacity target => exact Or.inr (Or.inr ⟨target, hcalled⟩)
  | drain target =>
      rcases hcalled with ⟨_, hnone⟩ | ⟨_, flag, _, _, hcalls⟩
      · exact Or.inl hnone
      · exact Or.inr (Or.inr ⟨target, flag, hcalls⟩)
  | pushFromInterrupt target message => exact Or.inr (Or.inl ⟨target, hcalled⟩)
  | _ => cases hmailbox

end Operation

structure Caller where
  operation : Operation
  story : List Happening

/-- The discipline of calls, for callbacks that do not fail. -/
def calling : Discipline Caller where
  start operation := ⟨operation, []⟩
  observe caller happening := { caller with story := caller.story ++ [happening] }
  Allows caller happening := caller.operation.Calling (caller.story ++ [happening])
  Presumes _ happening := happening.fails = false
  Enters _ caller := caller.operation.mailbox? = none
  Leaves _ caller later _ := later.operation = caller.operation
  Returns operation caller _ := caller.operation = operation ∧ operation.Called caller.story

/-- Whether a happening is neither a call nor a look from outside the lock. -/
def Happening.Quiet : Happening → Prop
  | .acted (.mailbox _ access) _ => access ≠ .peek
  | .reported _ => True
  | _ => False

theorem calls_concat (story : List Happening) (happening : Happening) :
    calls (story ++ [happening]) = calls story ++ (Call.of? happening).toList := by
  cases hcall : Call.of? happening <;> simp [calls, hcall]

theorem peeks_concat (target : Ref .mailbox) (story : List Happening) (happening : Happening) :
    Mailbox.peeks target (story ++ [happening]) =
      Mailbox.peeks target story ++ (Mailbox.peeked? target happening).toList := by
  cases hpeeked : Mailbox.peeked? target happening <;> simp [Mailbox.peeks, hpeeked]

/-- The calls and the looks of a caller. -/
structure Caller.Has (caller : Caller) (operation : Operation) (target : Ref .mailbox)
    (made : List Call) (seen : List Nat) : Prop where
  operation : caller.operation = operation
  calls : calls caller.story = made
  peeks : Mailbox.peeks target caller.story = seen

section
variable {α : Type} {target : Ref .mailbox} {operation : Operation} {caller : Caller}
  {made : List Call} {seen : List Nat} {happening : Happening}

theorem Caller.Has.quiet (hhas : caller.Has operation target made seen)
    (hquiet : happening.Quiet) :
    (calling.observe caller happening).Has operation target made seen := by
  have hcall : Call.of? happening = none := by
    cases happening with
    | acted action answer => cases action <;> first | rfl | cases hquiet
    | reported event => rfl
    | _ => cases hquiet
  have hpeeked : Mailbox.peeked? target happening = none := by
    cases happening with
    | acted action answer =>
        cases action with
        | mailbox place access => cases access <;> first | rfl | exact absurd rfl hquiet
        | _ => cases hquiet
    | reported event => rfl
    | _ => cases hquiet
  refine ⟨hhas.operation, ?_, ?_⟩
  · simp [calling, calls_concat, hcall, hhas.calls]
  · simp [calling, peeks_concat, hpeeked, hhas.peeks]

/-- What the story of an operation allows is told by its calls and its looks. -/
def Operation.Admits (operation : Operation) (target : Ref .mailbox) (made : List Call)
    (seen : List Nat) : Prop :=
  ∀ story, calls story = made → Mailbox.peeks target story = seen → operation.Calling story

theorem quiet_calling {body : Program α} (hbody : body.Within Happening.Quiet)
    (hhas : caller.Has operation target made seen) (hadmits : operation.Admits target made seen) :
    body.Ensures calling caller fun later _ => later.Has operation target made seen := by
  refine hbody.ensures hhas ?_ ?_
  · intro state happening hstate hquiet
    have hlater := hstate.quiet hquiet
    refine ⟨?_, hlater⟩
    have hcalling := hadmits _ hlater.calls hlater.peeks
    rwa [← hstate.operation] at hcalling
  · intro procedure state hstate hquiet
    cases hquiet

theorem Caller.Has.call {call : Call} (happening : Happening)
    (hhas : caller.Has operation target made seen)
    (hcall : Call.of? happening = some call) (hpeeked : Mailbox.peeked? target happening = none) :
    (calling.observe caller happening).Has operation target (made ++ [call]) seen := by
  refine ⟨hhas.operation, ?_, ?_⟩
  · simp [calling, calls_concat, hcall, hhas.calls]
  · simp [calling, peeks_concat, hpeeked, hhas.peeks]

theorem Caller.Has.allows (hadmits : operation.Admits target made seen)
    (hhas : (calling.observe caller happening).Has operation target made seen) :
    calling.Allows caller happening := by
  have hcalling := hadmits _ hhas.calls hhas.peeks
  rwa [← hhas.operation] at hcalling

theorem locked_calling {body : Program α} (hbody : body.Within Happening.Quiet)
    (hhas : caller.Has operation target made seen)
    (hacquire : operation.Admits target (made ++ [.acquire (.queue target)]) seen)
    (hrelease : operation.Admits target (made ++ Call.bare target) seen) :
    (Program.locked (.queue target) body).Ensures calling caller fun later _ =>
      later.Has operation target (made ++ Call.bare target) seen := by
  rw [Program.ensures_locked]
  intro _
  have hinside := hhas.call (.acted (.acquire (.queue target)) ()) rfl rfl
  refine ⟨Caller.Has.allows hacquire hinside, (quiet_calling hbody hinside hacquire).mono ?_⟩
  intro inside result hstill _
  have hlater := hstill.call (.acted (.release (.queue target)) ()) rfl rfl
  rw [List.append_assoc] at hlater
  exact ⟨Caller.Has.allows hrelease hlater, hlater⟩

theorem masked_calling {body : Program α} (hbody : body.Within Happening.Quiet)
    (hhas : caller.Has operation target [] seen)
    (hadmits : ∀ flag made, made <+: Call.shielded target flag →
      operation.Admits target made seen) :
    (Program.masked (Program.locked (.queue target) body)).Ensures calling caller
      fun later _ => ∃ flag, later.Has operation target (Call.shielded target flag) seen := by
  rw [Program.ensures_masked]
  intro masking hpresumes
  cases masking with
  | error failure => cases hpresumes
  | ok flag =>
      have hsaved := hhas.call (.answered .mask (.ok flag)) rfl rfl
      refine ⟨Caller.Has.allows (hadmits flag _ ⟨_, rfl⟩) hsaved, ?_⟩
      refine (locked_calling hbody hsaved (hadmits flag _ ⟨_, rfl⟩)
        (hadmits flag _ ⟨_, rfl⟩)).mono ?_
      intro inside result hfreed restoring _
      have hlater := hfreed.call (.answered (.restore flag) restoring) rfl rfl
      exact ⟨Caller.Has.allows (hadmits flag _ (List.prefix_refl _)) hlater, flag, hlater⟩

end

namespace Mailbox

variable {target : Ref .mailbox}

theorem quiet_access {access : Access} (haccess : access ≠ .peek) :
    (Program.perform (.mailbox target access)).Within Happening.Quiet :=
  Program.Within.perform fun _ => haccess

theorem detachAll_quiet : (detachAll target).Within Happening.Quiet := by
  apply Program.Within.bind (quiet_access (by simp))
  intro length
  split
  · exact Program.Within.pure _
  · apply Program.Within.bind (quiet_access (by simp))
    intro messages
    apply Program.Within.bind (quiet_access (by simp))
    intro replenished
    split
    · exact Program.Within.bind (quiet_access (by simp)) fun _ => Program.Within.pure _
    · exact Program.Within.fail _

theorem push_calling (message : Message) :
    (push target message).Ensures calling ⟨.push target message, []⟩
      (calling.Returns (.push target message)) := by
  have hhas : Caller.Has ⟨.push target message, []⟩ (.push target message) target [] [] :=
    ⟨rfl, rfl, rfl⟩
  refine (masked_calling ?_ hhas ?_).mono ?_
  · exact Program.Within.bind (quiet_access (by simp)) fun _ => quiet_access (by simp)
  · rintro flag _ hbegins story rfl _
    exact ⟨flag, hbegins⟩
  · rintro later result ⟨flag, hlater⟩
    exact ⟨hlater.operation, flag, hlater.calls⟩

theorem pushFromInterrupt_calling (message : Message) :
    (pushFromInterrupt target message).Ensures calling ⟨.pushFromInterrupt target message, []⟩
      (calling.Returns (.pushFromInterrupt target message)) := by
  have hhas : Caller.Has ⟨.pushFromInterrupt target message, []⟩
      (.pushFromInterrupt target message) target [] [] :=
    ⟨rfl, rfl, rfl⟩
  refine (locked_calling ?_ hhas ?_ ?_).mono ?_
  · apply Program.Within.bind (quiet_access (by simp))
    intro accepted
    split <;> exact quiet_access (by simp)
  · rintro story hcalls _
    change calls story <+: _
    rw [hcalls]
    exact ⟨_, rfl⟩
  · rintro story hcalls _
    change calls story <+: _
    rw [hcalls]
    exact List.prefix_refl _
  · rintro later result hlater
    exact ⟨hlater.operation, hlater.calls⟩

theorem capacity_calling :
    (capacity target).Ensures calling ⟨.capacity target, []⟩
      (calling.Returns (.capacity target)) := by
  have hhas : Caller.Has ⟨.capacity target, []⟩ (.capacity target) target [] [] :=
    ⟨rfl, rfl, rfl⟩
  refine (masked_calling ?_ hhas ?_).mono ?_
  · exact quiet_access (by simp)
  · rintro flag _ hbegins story rfl _
    exact ⟨flag, hbegins⟩
  · rintro later result ⟨flag, hlater⟩
    exact ⟨hlater.operation, flag, hlater.calls⟩

/-- A drain through the lock, whether it finds messages, finds none or cannot get its slots. -/
theorem drainLocked_quiet_calling {operation : Operation} {caller : Caller} {seen : List Nat}
    (hhas : caller.Has operation target [] seen)
    (hadmits : ∀ flag made, made <+: Call.shielded target flag →
      operation.Admits target made seen) :
    (drainLocked target).Ensures calling caller fun later _ =>
      ∃ flag, later.Has operation target (Call.shielded target flag) seen := by
  rw [drainLocked]
  apply (masked_calling detachAll_quiet hhas hadmits).bind
  · rintro later messages ⟨flag, hlater⟩
    refine (quiet_calling ?_ hlater (hadmits flag _ (List.prefix_refl _))).mono ?_
    · split
      · exact Program.Within.pure _
      · exact Program.Within.bind (Program.Within.report trivial) fun _ => Program.Within.pure _
    · exact fun last _ hlast => ⟨flag, hlast⟩
  · rintro later failure hlater
    exact hlater

theorem drainLocked_calling :
    (drainLocked target).Ensures calling ⟨.drainLocked target, []⟩
      (calling.Returns (.drainLocked target)) := by
  have hhas : Caller.Has ⟨.drainLocked target, []⟩ (.drainLocked target) target [] [] :=
    ⟨rfl, rfl, rfl⟩
  refine (drainLocked_quiet_calling hhas ?_).mono ?_
  · rintro flag _ hbegins story rfl _
    exact ⟨flag, hbegins⟩
  · rintro later result ⟨flag, hlater⟩
    exact ⟨hlater.operation, flag, hlater.calls⟩

theorem drain_calling :
    (drain target).Ensures calling ⟨.drain target, []⟩ (calling.Returns (.drain target)) := by
  simp only [drain, Program.ensures_bind, Program.ensures_perform]
  intro queued _
  have hpeeked : (calling.observe ⟨.drain target, []⟩
      (.acted (.mailbox target .peek) queued)).Has (.drain target) target [] [queued] :=
    ⟨rfl, rfl, by simp [calling, peeks, peeked?]⟩
  refine ⟨Or.inl rfl, ?_⟩
  by_cases hqueued : queued = 0
  · subst hqueued
    exact ⟨rfl, Or.inl ⟨hpeeked.peeks, rfl⟩⟩
  · rw [if_neg hqueued]
    refine (drainLocked_quiet_calling hpeeked ?_).mono ?_
    · rintro flag _ hbegins story rfl hpeeks
      exact Or.inr ⟨queued, flag, hqueued, hpeeks, hbegins⟩
    · rintro later result ⟨flag, hlater⟩
      exact ⟨hlater.operation, Or.inr ⟨queued, flag, hqueued, hlater.peeks, hlater.calls⟩⟩

end Mailbox

/-- What the other operations do is of no concern. -/
theorem calling_others {α : Type} {program : Program α} {kinds : List Kind} {caller : Caller}
    (htouches : program.Touches kinds) (hcaller : caller.operation.mailbox? = none) :
    program.Ensures calling caller fun later _ => later.operation = caller.operation := by
  have hcalling : ∀ (operation : Operation) (story : List Happening),
      operation.mailbox? = none → operation.Calling story := by
    intro operation story hnone
    cases operation <;> trivial
  refine htouches.ensures rfl ?_ ?_
  · intro state happening hstate _
    exact ⟨hcalling _ _ (hstate ▸ hcaller), hstate⟩
  · intro procedure state hstate _
    have hnone : state.operation.mailbox? = none := hstate ▸ hcaller
    exact ⟨hnone, fun later result hlater => hlater.trans hstate⟩

theorem calling_obeyed : calling.Obeyed where
  operations operation := by
    cases hmailbox : operation.mailbox? with
    | none =>
        apply (calling_others operation.program_touches hmailbox).mono
        intro later _ hlater
        refine ⟨hlater, ?_⟩
        cases operation <;> trivial
    | some target =>
        cases operation with
        | push target message => exact Mailbox.push_calling message
        | pushFromInterrupt target message => exact Mailbox.pushFromInterrupt_calling message
        | drain target => exact Mailbox.drain_calling
        | drainLocked target => exact Mailbox.drainLocked_calling
        | capacity target => exact Mailbox.capacity_calling
        | _ => cases hmailbox
  procedures procedure caller henters := calling_others procedure.code_touches henters

end CoreEngines
