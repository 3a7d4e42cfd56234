import CoreEngines.Proofs.Alone
import CoreEngines.Proofs.Mailbox.Growth

/-!
Requests on a mailbox of its own.  Pushes and drains that are run one after the other, with nothing
else in the world, leave the mailbox as each of them says.
-/

namespace CoreEngines

def World.lone (mailbox : Mailbox) : World :=
  { mailboxes := #[mailbox] }

def World.withMailbox (world : World) (target : Ref .mailbox) (mailbox : Mailbox) : World :=
  { world with mailboxes := world.mailboxes.setIfInBounds target.index mailbox }

namespace Mailbox

/-- The operations that queue messages or take them out. -/
inductive Request
  | push (message : Message)
  /-- A push from an interrupt handler. -/
  | offer (message : Message)
  | drain
  | drainLocked
deriving DecidableEq

namespace Request

/-- The request as an operation on a mailbox. -/
def operation (target : Ref .mailbox) : Request → Operation
  | push message => .push target message
  | offer message => .pushFromInterrupt target message
  | drain => .drain target
  | drainLocked => .drainLocked target

/-- The request that an operation is for a mailbox, if it is one. -/
def of? (target : Ref .mailbox) : Operation → Option Request
  | .push mailbox message => if mailbox = target then some (push message) else none
  | .pushFromInterrupt mailbox message => if mailbox = target then some (offer message) else none
  | .drain mailbox => if mailbox = target then some drain else none
  | .drainLocked mailbox => if mailbox = target then some drainLocked else none
  | _ => none

theorem of?_eq_some {target : Ref .mailbox} {operation : Operation} {request : Request} :
    of? target operation = some request ↔ operation = request.operation target := by
  constructor
  · intro hrequest
    unfold of? at hrequest
    split at hrequest <;>
      first
      | (obtain ⟨rfl, hsame⟩ := Option.ite_none_right_eq_some.mp hrequest; cases hsame; rfl)
      | cases hrequest
  · rintro rfl
    cases request <;> exact if_pos rfl

/-- What a request makes of a mailbox. -/
def serve (mailbox : Mailbox) : Request → Mailbox
  | push message => { mailbox.append message with queued := mailbox.queue.size + 1 }
  | offer message =>
      if mailbox.queue.size < mailbox.slots then
        { mailbox.append message with queued := mailbox.queue.size + 1 }
      else { mailbox with dropped := mailbox.dropped + 1 }
  | drain | drainLocked =>
      if mailbox.queue.size = 0 then mailbox
      else
        { mailbox with queue := #[], slots := Slots.replenished mailbox.reserve, queued := 0 }

def reply (target : Ref .mailbox) (mailbox : Mailbox) :
    (request : Request) → (request.operation target).Reply
  | push _ | offer _ => ()
  | drain | drainLocked => mailbox.queue

end Request

/-- What a mailbox has come to that has served these requests alone. -/
def aloneWith (reserve : Nat) (requests : List Request) : Mailbox :=
  requests.foldl Request.serve (.new reserve)

def serve? (world : World) (request : Request) : Option World :=
  ((request.operation ⟨0⟩).program.alone? .bare world).map Prod.snd

/-- Make a mailbox in a world of its own, and serve requests there one after the other. -/
def served? (reserve : Nat) (requests : List Request) : Option World :=
  (((make reserve).alone? .bare {}).map Prod.snd).bind fun world =>
    requests.foldlM serve? world

/-- The mailbox in a world of its own after these requests. -/
def alone? (reserve : Nat) (requests : List Request) : Option Mailbox :=
  (served? reserve requests).bind (·.mailboxAt? ⟨0⟩)

/-- What an operation returns in a world of its own after these requests. -/
def replies? (reserve : Nat) (requests : List Request) (operation : Operation) :
    Option (Except Failure operation.Reply) :=
  (served? reserve requests).bind fun world =>
    (operation.program.alone? .bare world).map Prod.fst

/-- A mailbox whose lock is free: the length that is published is right, and the slots can be had
that a drain asks for. -/
structure Orderly (mailbox : Mailbox) : Prop where
  published : mailbox.queued = mailbox.queue.size
  allocatable : Slots.allocatable mailbox.reserve

section
variable {mailbox : Mailbox} {request : Request}

theorem orderly_new {reserve : Nat} (hroom : Slots.allocatable reserve) :
    Orderly (.new reserve) :=
  ⟨rfl, hroom⟩

@[simp]
theorem serve_reserve (request : Request) (mailbox : Mailbox) :
    (request.serve mailbox).reserve = mailbox.reserve := by
  cases request <;> simp only [Request.serve] <;> first | rfl | (split <;> rfl)

theorem Orderly.serve (horderly : mailbox.Orderly) (request : Request) :
    (request.serve mailbox).Orderly := by
  refine ⟨?_, by simpa using horderly.allocatable⟩
  have hpublished := horderly.published
  cases request <;> simp only [Request.serve, append] <;> (try split) <;> simp [hpublished]

theorem Orderly.foldl (horderly : mailbox.Orderly) (requests : List Request) :
    (requests.foldl Request.serve mailbox).Orderly := by
  induction requests generalizing mailbox with
  | nil => exact horderly
  | cons request requests ih => exact ih (horderly.serve request)

end

section
variable {world : World} {target : Ref .mailbox} {mailbox : Mailbox}

theorem perform?_withMailbox (hinside : target.index < world.mailboxes.size) (mailbox : Mailbox)
    (access : Access) (held : List Lock) :
    World.perform? { world.withMailbox target mailbox with held := held } (.mailbox target access) =
      some ((mailbox.access access).1,
        { world.withMailbox target (mailbox.access access).2 with held := held }) := by
  simp [World.perform?, World.accessAt?_eq, World.withMailbox, hinside]

theorem alone?_section {α : Type} {body : Program α} {result : Except Failure α} {later : Mailbox}
    (hfree : .queue target ∉ world.held)
    (hbody : body.alone? .bare
        { world.withMailbox target mailbox with held := .queue target :: world.held } =
      some (result, { world.withMailbox target later with held := .queue target :: world.held })) :
    (Program.locked (.queue target) body).alone? .bare (world.withMailbox target mailbox) =
      some (result, world.withMailbox target later) := by
  have hlocked : .queue target ∉ (world.withMailbox target mailbox).held := hfree
  rw [Program.alone?_locked hlocked hbody]
  simp [World.withMailbox]

section
variable (hinside : target.index < world.mailboxes.size) (hfree : .queue target ∉ world.held)
include hinside hfree

theorem alone?_push (mailbox : Mailbox) (message : Message) :
    (push target message).alone? .bare (world.withMailbox target mailbox) =
      some (.ok (), world.withMailbox target ((Request.push message).serve mailbox)) := by
  rw [push, Program.alone?_masked rfl rfl]
  apply alone?_section hfree
  simp [perform?_withMailbox hinside, access, Request.serve]

theorem alone?_pushFromInterrupt (mailbox : Mailbox) (message : Message) :
    (pushFromInterrupt target message).alone? .bare (world.withMailbox target mailbox) =
      some (.ok (), world.withMailbox target ((Request.offer message).serve mailbox)) := by
  rw [pushFromInterrupt]
  apply alone?_section hfree
  by_cases hroom : mailbox.queue.size < mailbox.slots <;>
    simp [perform?_withMailbox hinside, access, Request.serve, hroom]

theorem alone?_capacity (mailbox : Mailbox) :
    (capacity target).alone? .bare (world.withMailbox target mailbox) =
      some (.ok mailbox.slots, world.withMailbox target mailbox) := by
  rw [capacity, Program.alone?_masked rfl rfl]
  apply alone?_section hfree
  simp [perform?_withMailbox hinside, access]

theorem alone?_drainLocked (horderly : mailbox.Orderly) :
    (drainLocked target).alone? .bare (world.withMailbox target mailbox) =
      some (.ok mailbox.queue, world.withMailbox target (Request.drainLocked.serve mailbox)) := by
  have hroom := Slots.allocatable_replenished horderly.allocatable
  have hsection : (Program.locked (.queue target) (detachAll target)).alone? .bare
      (world.withMailbox target mailbox) =
        some (.ok mailbox.queue, world.withMailbox target (Request.drainLocked.serve mailbox)) := by
    apply alone?_section hfree
    by_cases hempty : mailbox.queue = #[]
    · simp [detachAll, perform?_withMailbox hinside, access, Request.serve, hempty]
    · simp [detachAll, perform?_withMailbox hinside, access, Request.serve, hempty, hroom]
  rw [drainLocked, Program.alone?_bind, Program.alone?_masked rfl rfl, hsection, Option.bind_some]
  dsimp only
  split <;> simp

theorem alone?_drain (horderly : mailbox.Orderly) :
    (drain target).alone? .bare (world.withMailbox target mailbox) =
      some (.ok mailbox.queue, world.withMailbox target (Request.drain.serve mailbox)) := by
  have hpeek : (world.withMailbox target mailbox).perform? (.mailbox target .peek) =
      some (mailbox.queued, world.withMailbox target mailbox) :=
    perform?_withMailbox hinside mailbox .peek world.held
  rw [drain, Program.alone?_bind, Program.alone?_perform, hpeek, Option.map_some, Option.bind_some,
    horderly.published]
  dsimp only
  split
  case isTrue hempty =>
    rw [Request.serve, if_pos hempty, Array.eq_empty_of_size_eq_zero hempty]
    rfl
  case isFalse hsome => exact alone?_drainLocked hinside hfree horderly

/-- Whoever has a mailbox to itself serves its request at once. -/
theorem alone?_request (horderly : mailbox.Orderly) (request : Request) :
    (request.operation target).program.alone? .bare (world.withMailbox target mailbox) =
      some (.ok (request.reply target mailbox),
        world.withMailbox target (request.serve mailbox)) := by
  cases request with
  | push message => exact alone?_push hinside hfree mailbox message
  | offer message => exact alone?_pushFromInterrupt hinside hfree mailbox message
  | drain => exact alone?_drain hinside hfree horderly
  | drainLocked => exact alone?_drainLocked hinside hfree horderly

end

theorem lone_inside (mailbox : Mailbox) :
    (⟨0⟩ : Ref .mailbox).index < (World.lone mailbox).mailboxes.size :=
  Nat.zero_lt_one

theorem lone_free (mailbox : Mailbox) : .queue ⟨0⟩ ∉ (World.lone mailbox).held :=
  List.not_mem_nil

theorem serve?_lone (horderly : mailbox.Orderly) (request : Request) :
    serve? (.lone mailbox) request = some (.lone (request.serve mailbox)) :=
  congrArg (Option.map Prod.snd)
    (alone?_request (lone_inside mailbox) (lone_free mailbox) horderly request)

/-- Requests that are served alone leave a mailbox that each of them has changed in its turn. -/
theorem served?_eq {reserve : Nat} (hroom : Slots.allocatable reserve) (requests : List Request) :
    served? reserve requests = some (.lone (aloneWith reserve requests)) := by
  have hmake : ((make reserve).alone? .bare {}).map Prod.snd = some (.lone (.new reserve)) := by
    simp [make, World.perform?, hroom, World.lone]
  rw [served?, hmake, Option.bind_some, aloneWith]
  have horderly := orderly_new hroom
  generalize Mailbox.new reserve = mailbox at horderly ⊢
  induction requests generalizing mailbox with
  | nil => rfl
  | cons request requests ih =>
      rw [List.foldlM_cons, serve?_lone horderly]
      exact ih _ (horderly.serve request)

end

section
variable {reserve : Nat} (requests : List Request)

theorem orderly_aloneWith (hroom : Slots.allocatable reserve) :
    (aloneWith reserve requests).Orderly :=
  (orderly_new hroom).foldl requests

theorem alone?_eq (hroom : Slots.allocatable reserve) :
    alone? reserve requests = some (aloneWith reserve requests) := by
  rw [alone?, served?_eq hroom]
  rfl

/-- A request is answered as it finds the mailbox. -/
theorem replies?_request (hroom : Slots.allocatable reserve) (request : Request) :
    replies? reserve requests (request.operation ⟨0⟩) =
      some (.ok (request.reply ⟨0⟩ (aloneWith reserve requests))) := by
  rw [replies?, served?_eq hroom]
  exact congrArg (Option.map Prod.fst) (alone?_request (lone_inside (aloneWith reserve requests))
    (lone_free _) (orderly_aloneWith requests hroom) request)

theorem replies?_capacity (hroom : Slots.allocatable reserve) :
    replies? reserve requests (.capacity ⟨0⟩) = some (.ok (aloneWith reserve requests).slots) := by
  rw [replies?, served?_eq hroom]
  exact congrArg (Option.map Prod.fst)
    (alone?_capacity (lone_inside (aloneWith reserve requests)) (lone_free _) _)

end

section
variable {world later : World}

def started? : Happening → Option Operation
  | .started operation => some operation
  | _ => none

theorem started?_of_steps {steps : List Happening}
    (hsteps : ∀ happening ∈ steps, happening.isStep) : steps.filterMap started? = [] := by
  rw [List.filterMap_eq_nil_iff]
  intro happening hmem
  have hstep := hsteps happening hmem
  cases happening <;> first | rfl | cases hstep

theorem run?_started {operation : Operation} {result : Except Failure operation.Reply}
    (halone : operation.program.alone? .bare world = some (result, later)) :
    ∃ moves story, Flow.run? world [] moves = some (later, [], story) ∧
      story.filterMap started? = [operation] := by
  obtain ⟨moves, steps, hmoves, hsteps⟩ := Flow.run?_operation [] rfl halone
  refine ⟨moves, _, hmoves, ?_⟩
  rw [List.filterMap_cons, List.filterMap_append, started?_of_steps hsteps]
  rfl

/-- One operation after the other. -/
theorem run?_then {middle : World} {first second : List Operation}
    (hfirst : ∃ moves story, Flow.run? world [] moves = some (middle, [], story) ∧
      story.filterMap started? = first)
    (hsecond : ∃ moves story, Flow.run? middle [] moves = some (later, [], story) ∧
      story.filterMap started? = second) :
    ∃ moves story, Flow.run? world [] moves = some (later, [], story) ∧
      story.filterMap started? = first ++ second := by
  obtain ⟨moves, story, hmoves, rfl⟩ := hfirst
  obtain ⟨moves', story', hmoves', rfl⟩ := hsecond
  refine ⟨moves ++ moves', story ++ story', ?_, List.filterMap_append⟩
  rw [Flow.run?_append, hmoves, Option.bind_some]
  dsimp only
  rw [hmoves']
  rfl

theorem run?_of_foldlM {requests : List Request}
    (hserved : requests.foldlM serve? world = some later) :
    ∃ moves story, Flow.run? world [] moves = some (later, [], story) ∧
      story.filterMap started? = requests.map (Request.operation ⟨0⟩) := by
  induction requests generalizing world with
  | nil =>
      cases hserved
      exact ⟨[], [], rfl, rfl⟩
  | cons request requests ih =>
      rw [List.foldlM_cons] at hserved
      obtain ⟨middle, hrequest, hrest⟩ := Option.bind_eq_some_iff.mp hserved
      obtain ⟨⟨result, _⟩, halone, rfl⟩ := Option.map_eq_some_iff.mp hrequest
      exact run?_then (run?_started halone) (ih hrest)

/-- What is served alone is a run of a machine with one flow, in which nothing starts but the making
of the mailbox and then the requests in their order. -/
theorem run?_of_served? {reserve : Nat} {requests : List Request}
    (hserved : served? reserve requests = some world) :
    ∃ moves history, (Machine.idle {} 1).run? moves = some (⟨world, #[[]]⟩, history) ∧
      (history.map Prod.snd).filterMap started? =
        .makeMailbox reserve :: requests.map (Request.operation ⟨0⟩) := by
  obtain ⟨middle, hmake, hrest⟩ := Option.bind_eq_some_iff.mp hserved
  obtain ⟨⟨result, _⟩, halone, rfl⟩ := Option.map_eq_some_iff.mp hmake
  have hmade : (Operation.makeMailbox reserve).program.alone? .bare {} = some (result, _) := halone
  obtain ⟨moves, story, hmoves, hstarted⟩ := run?_then (run?_started hmade) (run?_of_foldlM hrest)
  have hidle : (Machine.idle {} 1).flows[0]? = some [] := rfl
  refine ⟨_, _, Machine.run?_flow_back hidle hmoves, ?_⟩
  rw [List.map_map]
  exact (congrArg _ (List.map_id story)).trans hstarted

end

end Mailbox

end CoreEngines
