import CoreEngines.Proofs.Mailbox.Delivery
import CoreEngines.Proofs.Mailbox.Requests

/-!
When requests reach a queue.  A request reaches the queue once, with the step of its locked section
that shows to others what it has done, or with the look that tells a drain that there is nothing to
take.  From then on its operation leaves the mailbox alone.
-/

namespace CoreEngines

namespace Mailbox

/-- Whether a request reaches the queue with this access: it publishes what it has done, counts the
message that it drops, or finds that there is nothing to take. -/
def Access.reaches : (access : Access) → access.Answer → Bool
  | .publish _, _ | .discard, _ => true
  | .peek, found => found == 0
  | .length, found => found == 0
  | _, _ => false

def Access.looks : Access → Bool
  | .peek | .length => true
  | _ => false

/-- The accesses that a request is served with. -/
def Request.allots : Request → Access → Bool
  | push message, .append appended => appended == message
  | offer message, .offer offered => offered == message
  | push _, .publish _ | offer _, .publish _ | offer _, .discard => true
  | drain, .peek => true
  | drain, .length | drain, .detach | drain, .replenish | drain, .publish _ => true
  | drainLocked, .length | drainLocked, .detach | drainLocked, .replenish
  | drainLocked, .publish _ => true
  | _, _ => false

/-- The accesses that are made for a request, or without one: then only the slots are looked at. -/
def allotted : Option Request → Access → Bool
  | some request, access => request.allots access
  | none, access => access == .slots

end Mailbox

open Mailbox

/-- Whether a request reaches the queue of the mailbox with this step. -/
def Happening.reaches (target : Ref .mailbox) : Happening → Bool
  | .acted (.mailbox place access) answer => decide (place = target) && access.reaches answer
  | _ => false

/-- The accesses to a mailbox that an operation makes. -/
def Operation.allots (target : Ref .mailbox) (operation : Operation) (access : Access) : Bool :=
  allotted (Request.of? target operation) access

namespace Mailbox

/-- An operation with the visits that it has made to a mailbox, and whether its request has reached
the queue. -/
structure Reacher where
  operation : Operation
  visits : List Visit
  reached : Bool

/-- What an operation may still do with a mailbox: it looks before it takes, and does nothing more
once its request has reached the queue. -/
structure Reacher.Allows (target : Ref .mailbox) (reacher : Reacher) (access : Access) : Prop where
  allots : reacher.operation.allots target access
  looks : access.looks → reacher.visits = []
  before : reacher.reached = false

/-- The discipline of requests. -/
def reaching (target : Ref .mailbox) : Discipline Reacher where
  start operation := ⟨operation, [], false⟩
  observe reacher happening :=
    { reacher with
      visits := reacher.visits ++ (Visit.of? target happening).toList
      reached := reacher.reached || happening.reaches target }
  Allows reacher
    | .acted (.mailbox place access) _ => place = target → reacher.Allows target access
    | _ => True
  Presumes _ _ := True
  Enters _ _ := True
  Leaves _ reacher later _ := later = reacher
  Returns operation reacher result :=
    match result with
    | .ok _ => (Request.of? target operation).isSome → reacher.reached
    | .error _ => True

variable {target : Ref .mailbox}

theorem not_reaches_of_spares {happening : Happening} (hspares : Spares target happening) :
    happening.reaches target = false := by
  unfold Happening.reaches
  split
  · obtain ⟨hplace, _⟩ := hspares
    simp_all [Action.mailbox?]
  · rfl

theorem observe_reaching {happening : Happening} (reacher : Reacher)
    (hvisit : Visit.of? target happening = none) (hreaches : happening.reaches target = false) :
    (reaching target).observe reacher happening = reacher := by
  simp [reaching, hvisit, hreaches]

theorem spares_reaching {α : Type} {program : Program α} {reacher : Reacher}
    (hspares : program.Within (Spares target)) :
    program.Ensures (reaching target) reacher fun later _ => later = reacher := by
  have haside : ∀ happening, Spares target happening →
      (reaching target).observe reacher happening = reacher := fun happening hhappening =>
    observe_reaching reacher (Visit.of?_of_spares hhappening) (not_reaches_of_spares hhappening)
  refine hspares.ensures (show (fun later => later = reacher) reacher from rfl) ?_ ?_
  · rintro _ happening rfl hhappening
    refine ⟨?_, haside happening hhappening⟩
    unfold reaching
    dsimp only
    split
    · exact fun hplace => absurd (congrArg some hplace) hhappening.1
    · trivial
  · rintro procedure _ rfl _
    exact ⟨trivial, fun later result hlater => hlater⟩

/-- How a part of an operation ends: if it has a value, the request has reached the queue, or has
not. -/
def Reacher.Ends {α : Type} (reached : Bool) (reacher : Reacher) : Except Failure α → Prop
  | .ok _ => reacher.reached = reached
  | .error _ => True

section
variable {α : Type} {reacher : Reacher} {body : Program α} {reached : Bool}

theorem locked_reaching
    (hbody : body.Ensures (reaching target) reacher (Reacher.Ends reached)) :
    (Program.locked (.queue target) body).Ensures (reaching target) reacher
      (Reacher.Ends reached) := by
  rw [Program.ensures_locked]
  intro _
  refine ⟨trivial, ?_⟩
  rw [observe_reaching reacher rfl rfl]
  apply hbody.mono
  intro later result hends _
  refine ⟨trivial, ?_⟩
  rwa [observe_reaching later rfl rfl]

theorem masked_reaching
    (hbody : body.Ensures (reaching target) reacher (Reacher.Ends reached)) :
    (Program.masked body).Ensures (reaching target) reacher (Reacher.Ends reached) := by
  rw [Program.ensures_masked]
  intro masking _
  refine ⟨trivial, ?_⟩
  rw [observe_reaching reacher rfl rfl]
  cases masking with
  | error failure => trivial
  | ok previous =>
      apply hbody.mono
      intro later result hends restoring _
      refine ⟨trivial, ?_⟩
      rw [observe_reaching later rfl rfl]
      cases restoring with
      | error failure => cases result <;> trivial
      | ok answer => exact hends

end

/-- One access to the mailbox by an operation that may make it. -/
theorem access_reaching {operation : Operation} {visits : List Visit} {access : Access}
    {post : Reacher → Except Failure access.Answer → Prop}
    (hallots : operation.allots target access) (hlooks : access.looks → visits = [])
    (hpost : ∀ answer, post ⟨operation, visits ++ (access.visit? answer).toList,
      access.reaches answer⟩ (.ok answer)) :
    (Program.perform (.mailbox target access)).Ensures (reaching target)
      ⟨operation, visits, false⟩ post := by
  intro answer _
  refine ⟨fun _ => ⟨hallots, hlooks, rfl⟩, ?_⟩
  have hobserve : (reaching target).observe ⟨operation, visits, false⟩
      (.acted (.mailbox target access) answer) =
        ⟨operation, visits ++ (access.visit? answer).toList, access.reaches answer⟩ := by
    simp [reaching, Happening.reaches, Visit.of?]
  rw [hobserve]
  exact hpost answer

theorem push_reaching (message : Message) :
    (push target message).Ensures (reaching target) ⟨.push target message, [], false⟩
      (Reacher.Ends true) := by
  apply masked_reaching
  apply locked_reaching
  rw [Program.ensures_bind]
  apply access_reaching
  · simp [Operation.allots, Request.of?, allotted, Request.allots]
  · exact fun _ => rfl
  · intro length
    apply access_reaching
    · simp [Operation.allots, Request.of?, allotted, Request.allots]
    · simp [Access.looks]
    · exact fun _ => rfl

theorem pushFromInterrupt_reaching (message : Message) :
    (pushFromInterrupt target message).Ensures (reaching target)
      ⟨.pushFromInterrupt target message, [], false⟩ (Reacher.Ends true) := by
  apply locked_reaching
  rw [Program.ensures_bind]
  apply access_reaching
  · simp [Operation.allots, Request.of?, allotted, Request.allots]
  · exact fun _ => rfl
  · intro accepted
    cases accepted <;> apply access_reaching
    · simp [Operation.allots, Request.of?, allotted, Request.allots]
    · simp [Access.looks]
    · exact fun _ => rfl
    · simp [Operation.allots, Request.of?, allotted, Request.allots]
    · simp [Access.looks]
    · exact fun _ => rfl

theorem capacity_reaching :
    (capacity target).Ensures (reaching target) ⟨.capacity target, [], false⟩
      (Reacher.Ends false) := by
  apply masked_reaching
  apply locked_reaching
  apply access_reaching rfl (fun _ => rfl)
  exact fun _ => rfl

section
variable {operation : Operation}

theorem detachAll_reaching
    (hallots : ∀ access ∈ [Access.length, .detach, .replenish, .publish 0],
      operation.allots target access) :
    (detachAll target).Ensures (reaching target) ⟨operation, [], false⟩ (Reacher.Ends true) := by
  rw [detachAll, Program.ensures_bind]
  apply access_reaching (hallots _ (by simp)) (fun _ => rfl)
  intro length
  dsimp only
  split
  case isTrue hempty => exact beq_iff_eq.mpr hempty
  case isFalse hsome =>
    have hreaches : Access.length.reaches length = false := by simpa [Access.reaches] using hsome
    rw [hreaches, Program.ensures_bind]
    apply access_reaching (hallots _ (by simp)) (by simp [Access.looks])
    intro messages
    dsimp only
    rw [Program.ensures_bind]
    apply access_reaching (hallots _ (by simp)) (by simp [Access.looks])
    intro replenished
    dsimp only
    split
    · rw [Program.ensures_bind]
      apply access_reaching (hallots _ (by simp)) (by simp [Access.looks])
      exact fun _ => rfl
    · trivial

theorem drainLocked_reaching
    (hallots : ∀ access ∈ [Access.length, .detach, .replenish, .publish 0],
      operation.allots target access) :
    (drainLocked target).Ensures (reaching target) ⟨operation, [], false⟩ (Reacher.Ends true) := by
  rw [drainLocked]
  apply (masked_reaching (locked_reaching (detachAll_reaching hallots))).bind
  · intro later messages hreached
    split
    · exact hreached
    · rw [Program.ensures_bind]
      intro _
      refine ⟨trivial, ?_⟩
      rw [observe_reaching later rfl rfl]
      exact hreached
  · exact fun later failure _ => trivial

theorem drain_reaching :
    (drain target).Ensures (reaching target) ⟨.drain target, [], false⟩ (Reacher.Ends true) := by
  have hallots : ∀ access ∈ [Access.length, .detach, .replenish, .publish 0],
      (Operation.drain target).allots target access := by
    simp [Operation.allots, Request.of?, allotted, Request.allots]
  rw [drain, Program.ensures_bind]
  apply access_reaching
  · simp [Operation.allots, Request.of?, allotted, Request.allots]
  · exact fun _ => rfl
  · intro queued
    dsimp only
    split
    case isTrue hempty => exact beq_iff_eq.mpr hempty
    case isFalse hsome =>
      have hreaches : Access.peek.reaches queued = false := by simpa [Access.reaches] using hsome
      rw [hreaches]
      exact drainLocked_reaching hallots

end

/-- All operations serve requests as they should. -/
theorem reaching_obeyed (target : Ref .mailbox) : (reaching target).Obeyed where
  operations operation := by
    have hreached : ∀ (later : Reacher) (result : Except Failure operation.Reply),
        later.Ends true result → (reaching target).Returns operation later result := by
      intro later result hends
      cases result with
      | ok reply => exact fun _ => hends
      | error failure => trivial
    have hnone : Request.of? target operation = none → ∀ (later : Reacher)
        (result : Except Failure operation.Reply),
          (reaching target).Returns operation later result := by
      intro hnone later result
      cases result with
      | ok reply => exact fun hsome => by simp [hnone] at hsome
      | error failure => trivial
    by_cases hmailbox : operation.mailbox? = some target
    · cases operation with
      | push mailbox message => cases hmailbox; exact (push_reaching message).mono hreached
      | pushFromInterrupt mailbox message =>
          cases hmailbox
          exact (pushFromInterrupt_reaching message).mono hreached
      | drain mailbox => cases hmailbox; exact drain_reaching.mono hreached
      | drainLocked mailbox =>
          cases hmailbox
          refine (drainLocked_reaching ?_).mono hreached
          simp [Operation.allots, Request.of?, allotted, Request.allots]
      | capacity mailbox =>
          cases hmailbox
          exact capacity_reaching.mono fun later result _ => hnone rfl later result
      | _ => cases hmailbox
    · have hother : Request.of? target operation = none := by
        rw [Option.eq_none_iff_forall_ne_some]
        intro request hrequest
        obtain rfl := Request.of?_eq_some.mp hrequest
        cases request <;> exact hmailbox rfl
      exact (spares_reaching (Operation.program_spares hmailbox)).mono fun later result _ =>
        hnone hother later result
  procedures procedure reacher _ := spares_reaching (procedure.code_spares target)

end Mailbox

end CoreEngines
