import CoreEngines.Proofs.Succession.Outcomes

/-!
Revisions.  Where one way to drain is used for another, and where drains that find nothing are left
out, a sequence of operations comes to the same, up to how often the processor is asked.
-/

namespace CoreEngines

/-- The operation without its look at a published length. -/
def Operation.direct : Operation → Operation
  | .drain target => .drainLocked target
  | .takeStaged target => .takeStagedLocked target
  | operation => operation

/-- An operation, and what it returned. -/
structure Completed where
  operation : Operation
  result : Except Failure operation.Reply

namespace Completed

/-- The same result, told of the operation without its look at a published length. -/
def direct : Completed → Completed
  | ⟨.drain target, result⟩ => ⟨.drainLocked target, result⟩
  | ⟨.takeStaged target, result⟩ => ⟨.takeStagedLocked target, result⟩
  | returned => returned

def masks : Completed → Nat
  | ⟨.push _ _, _⟩ | ⟨.drainLocked _, _⟩ | ⟨.capacity _, _⟩ => 1
  | ⟨.drain _, .ok messages⟩ => if messages = #[] then 0 else 1
  | _ => 0

def isIdle : Completed → Bool
  | ⟨.drain _, .ok messages⟩ | ⟨.drainLocked _, .ok messages⟩ => messages = #[]
  | _ => false

end Completed

/-- So many times, a processor with this flag was asked to mask interrupts, and then to put back
what it had answered. -/
def maskings (flag : Bool) (count : Nat) : List Happening :=
  (List.replicate count
    [Happening.answered .mask (.ok flag), .answered (.restore flag) (.ok ())]).flatten

theorem maskings_add (flag : Bool) (first second : Nat) :
    maskings flag first ++ maskings flag second = maskings flag (first + second) := by
  rw [maskings, maskings, maskings, ← List.flatten_append, List.replicate_append_replicate]

namespace World.Quiescent

variable {world : World}

theorem congr {other : World} (hworld : world.Quiescent) (hheld : other.held = world.held)
    (hmailboxes : other.mailboxes = world.mailboxes)
    (hregistries : other.registries = world.registries) : other.Quiescent where
  free := hheld.trans hworld.free
  mailboxes hfound := hworld.mailboxes (by rwa [mailboxAt?, ← hmailboxes])
  registries hfound := hworld.registries (by rwa [registryAt?, ← hregistries])

theorem withMailbox (hworld : world.Quiescent) (target : Ref .mailbox) {mailbox : Mailbox}
    (horderly : mailbox.Orderly) : (world.withMailbox target mailbox).Quiescent where
  free := hworld.free
  mailboxes := by
    intro other found hfound
    rw [mailboxAt?, World.withMailbox, Array.getElem?_setIfInBounds] at hfound
    split at hfound
    · split at hfound
      · cases hfound
        exact horderly
      · cases hfound
    · exact hworld.mailboxes hfound
  registries := hworld.registries

theorem withRegistry (hworld : world.Quiescent) (target : Ref .registry) {registry : Registry}
    (horderly : registry.Orderly) : (world.withRegistry target registry).Quiescent where
  free := hworld.free
  mailboxes := hworld.mailboxes
  registries := by
    intro other found hfound
    rw [registryAt?, World.withRegistry, Array.getElem?_setIfInBounds] at hfound
    split at hfound
    · split at hfound
      · cases hfound
        exact horderly
      · cases hfound
    · exact hworld.registries hfound

theorem newMailbox (hworld : world.Quiescent) {reserve : Nat} (hroom : Slots.allocatable reserve) :
    World.Quiescent { world with mailboxes := world.mailboxes.push (.new reserve) } where
  free := hworld.free
  mailboxes := by
    intro other found hfound
    rw [mailboxAt?, Array.getElem?_push] at hfound
    split at hfound
    · cases hfound
      exact Mailbox.orderly_new hroom
    · exact hworld.mailboxes hfound
  registries := hworld.registries

theorem newRegistry (hworld : world.Quiescent) (core : CoreId) (reserve : Nat)
    (counter : Ref .counter) :
    World.Quiescent
      { world with registries := world.registries.push (.new core reserve counter) } where
  free := hworld.free
  mailboxes := hworld.mailboxes
  registries := by
    intro other found hfound
    rw [registryAt?, Array.getElem?_push] at hfound
    split at hfound
    · cases hfound
      exact ⟨rfl, Nat.le_refl 0⟩
    · exact hworld.registries hfound

theorem draining {setting : Setting} (hworld : setting.world.Quiescent) {target : Ref .mailbox}
    {mailbox : Mailbox} (hfound : setting.world.mailboxAt? target = some mailbox) :
    (setting.draining target mailbox).world.Quiescent := by
  rw [Setting.draining]
  split
  · exact hworld
  · exact hworld.withMailbox target ((hworld.mailboxes hfound).serve _)

end World.Quiescent

namespace Setting

/-- The setting, without what the processor was asked. -/
def unasked (setting : Setting) : Setting :=
  { setting with asked := [] }

def do? (setting : Setting) (operation : Operation) : Option (Completed × Setting) :=
  (operation.outcome? setting).map fun (result, later) => (⟨operation, result⟩, later)

/-- Do operations one after the other. -/
def play? (setting : Setting) : List Operation → Option (List Completed × Setting)
  | [] => some ([], setting)
  | operation :: operations =>
      (setting.do? operation).bind fun (returned, later) =>
        (later.play? operations).map fun (others, last) => (returned :: others, last)

/-- What an operation comes to, apart from its own masking. -/
def gist (outcome : Completed × Setting) : Completed × Setting :=
  (outcome.1.direct, outcome.2.unasked)

variable {setting other later : Setting} {operation : Operation} {returned : Completed}

theorem do?_unasked (setting : Setting) (operation : Operation) :
    (setting.unasked.do? operation).map gist = (setting.do? operation).map gist := by
  cases operation with
  | create target =>
      simp only [do?, Operation.outcome?, unasked, Option.map_bind]
      congr 1
      funext registry
      simp only [Function.comp, Option.map_map]
      congr 1
      funext counter
      simp only [creating]
      split <;> rfl
  | makeMailbox reserve =>
      simp only [do?, Operation.outcome?]
      split <;> rfl
  | drain | drainLocked =>
      simp only [do?, Operation.outcome?, Option.map_map]
      congr 1
      funext mailbox
      simp only [Function.comp, draining]
      split <;> rfl
  | _ => simp only [do?, Operation.outcome?, Option.map_map] <;> rfl

theorem do?_direct (setting : Setting) (operation : Operation) :
    (setting.do? operation.direct).map gist = (setting.do? operation).map gist := by
  cases operation with
  | drain target =>
      simp only [do?, Operation.direct, Operation.outcome?, Option.map_map]
      congr 1
      funext mailbox
      simp only [Function.comp, draining]
      split <;> rfl
  | takeStaged target =>
      simp only [do?, Operation.direct, Operation.outcome?, Option.map_map]
      rfl
  | _ => rfl

/-- Two operations that are the same without their looks come to the same. -/
theorem do?_revised {revised : Operation} (hdirect : revised.direct = operation.direct)
    (hsame : other.unasked = setting.unasked)
    (hdone : setting.do? operation = some (returned, later)) :
    ∃ returned' later', other.do? revised = some (returned', later') ∧
      returned'.direct = returned.direct ∧ later'.unasked = later.unasked := by
  have hgist : (other.do? revised).map gist = (setting.do? operation).map gist := by
    calc (other.do? revised).map gist
        = (other.unasked.do? revised.direct).map gist := by rw [do?_unasked, do?_direct]
      _ = (setting.unasked.do? operation.direct).map gist := by rw [hsame, hdirect]
      _ = (setting.do? operation).map gist := by rw [do?_unasked, do?_direct]
  rw [hdone, Option.map_some, Option.map_eq_some_iff] at hgist
  obtain ⟨⟨returned', later'⟩, hdone', hgist⟩ := hgist
  obtain ⟨hreturned, hlater⟩ := Prod.mk.inj hgist
  exact ⟨returned', later', hdone', hreturned, hlater⟩

section
variable (hdone : setting.do? operation = some (returned, later))
include hdone

theorem operation_of_do? : returned.operation = operation := by
  obtain ⟨_, _, heq⟩ := Option.map_eq_some_iff.mp hdone
  cases heq
  rfl

/-- The flag is as it was found, and the processor was asked as often as the operation masks. -/
theorem asked_of_do? :
    later.flag = setting.flag ∧
      later.asked = setting.asked ++ maskings setting.flag returned.masks := by
  obtain ⟨⟨result, last⟩, houtcome, heq⟩ := Option.map_eq_some_iff.mp hdone
  cases heq
  cases operation with
  | makeMailbox reserve =>
      simp only [Operation.outcome?] at houtcome
      split at houtcome <;> cases houtcome <;> simp [Completed.masks, maskings]
  | makeRegistry core reserve =>
      cases houtcome
      simp [Completed.masks, maskings]
  | create target =>
      obtain ⟨registry, -, hcreated⟩ := Option.bind_eq_some_iff.mp houtcome
      obtain ⟨counter, -, heq⟩ := Option.map_eq_some_iff.mp hcreated
      simp only [creating] at heq
      split at heq <;> cases heq <;> simp [Completed.masks, maskings, surfacing]
  | drain target =>
      obtain ⟨mailbox, -, heq⟩ := Option.map_eq_some_iff.mp houtcome
      cases heq
      by_cases hempty : mailbox.queue = #[]
      · simp [hempty, Completed.masks, maskings]
      · simp [hempty, Completed.masks, maskings, draining, serving, surfacing, masked]
  | drainLocked target =>
      obtain ⟨mailbox, -, heq⟩ := Option.map_eq_some_iff.mp houtcome
      cases heq
      by_cases hempty : mailbox.queue = #[] <;>
        simp [hempty, Completed.masks, maskings, draining, serving, surfacing, masked]
  | push | pushFromInterrupt | capacity | takeStaged | takeStagedLocked | threads =>
      obtain ⟨object, -, heq⟩ := Option.map_eq_some_iff.mp houtcome
      cases heq
      simp [Completed.masks, maskings, serving, surfacing, masked]
  | _ => cases houtcome

/-- All is in order again when the operation has returned. -/
theorem quiescent_of_do? (hworld : setting.world.Quiescent) : later.world.Quiescent := by
  obtain ⟨⟨result, last⟩, houtcome, heq⟩ := Option.map_eq_some_iff.mp hdone
  cases heq
  cases operation with
  | makeMailbox reserve =>
      simp only [Operation.outcome?] at houtcome
      split at houtcome
      case isTrue hroom =>
        cases houtcome
        exact hworld.newMailbox hroom
      case isFalse =>
        cases houtcome
        exact hworld
  | push | pushFromInterrupt =>
      obtain ⟨mailbox, hfound, heq⟩ := Option.map_eq_some_iff.mp houtcome
      cases heq
      exact hworld.withMailbox _ ((hworld.mailboxes hfound).serve _)
  | drain target =>
      obtain ⟨mailbox, hfound, heq⟩ := Option.map_eq_some_iff.mp houtcome
      cases heq
      split
      · exact hworld
      · exact hworld.draining hfound
  | drainLocked target =>
      obtain ⟨mailbox, hfound, heq⟩ := Option.map_eq_some_iff.mp houtcome
      cases heq
      exact hworld.draining hfound
  | capacity | threads =>
      obtain ⟨object, -, heq⟩ := Option.map_eq_some_iff.mp houtcome
      cases heq
      exact hworld
  | makeRegistry core reserve =>
      cases houtcome
      exact (hworld.newRegistry core reserve _).congr rfl rfl rfl
  | create target =>
      obtain ⟨registry, hfound, hcreated⟩ := Option.bind_eq_some_iff.mp houtcome
      obtain ⟨counter, -, heq⟩ := Option.map_eq_some_iff.mp hcreated
      have horderly := hworld.registries hfound
      simp only [creating] at heq
      split at heq
      case isTrue hroom =>
        cases heq
        refine ((hworld.newMailbox hroom).withRegistry target ⟨?_, ?_⟩).congr rfl rfl rfl
        · simp
        · simpa using horderly.staged
      case isFalse =>
        cases heq
        exact hworld.congr rfl rfl rfl
  | takeStaged | takeStagedLocked =>
      obtain ⟨registry, hfound, heq⟩ := Option.map_eq_some_iff.mp houtcome
      cases heq
      exact hworld.withRegistry _ ⟨(hworld.registries hfound).published, Nat.zero_le _⟩
  | _ => cases houtcome

/-- A drain that finds nothing leaves everything as it was. -/
theorem unasked_of_idle (hidle : returned.isIdle) : later.unasked = setting.unasked := by
  obtain ⟨⟨result, last⟩, houtcome, heq⟩ := Option.map_eq_some_iff.mp hdone
  cases heq
  cases operation with
  | drain target =>
      obtain ⟨mailbox, -, heq⟩ := Option.map_eq_some_iff.mp houtcome
      cases heq
      have hempty : mailbox.queue = #[] := of_decide_eq_true hidle
      rw [if_pos hempty]
  | drainLocked target =>
      obtain ⟨mailbox, -, heq⟩ := Option.map_eq_some_iff.mp houtcome
      cases heq
      have hempty : mailbox.queue = #[] := of_decide_eq_true hidle
      rw [draining, if_pos hempty]
      rfl
  | _ => simp [Completed.isIdle] at hidle

end

theorem play?_cons {operations : List Operation} {done : List Completed} :
    setting.play? (operation :: operations) = some (done, later) ↔
      ∃ returned middle others, setting.do? operation = some (returned, middle) ∧
        middle.play? operations = some (others, later) ∧ done = returned :: others := by
  simp only [play?, Option.bind_eq_some_iff, Option.map_eq_some_iff]
  constructor
  · rintro ⟨⟨returned, middle⟩, hfirst, ⟨others, last⟩, hrest, heq⟩
    cases heq
    exact ⟨returned, middle, others, hfirst, hrest, rfl⟩
  · rintro ⟨returned, middle, others, hfirst, hrest, rfl⟩
    exact ⟨(returned, middle), hfirst, (others, later), hrest, rfl⟩

theorem play?_concat {operations : List Operation} {done : List Completed} {last : Setting}
    (hplay : setting.play? operations = some (done, later))
    (hdone : later.do? operation = some (returned, last)) :
    setting.play? (operations ++ [operation]) = some (done ++ [returned], last) := by
  induction operations generalizing setting done with
  | nil =>
      cases hplay
      simp [play?, hdone]
  | cons first operations ih =>
      obtain ⟨earlier, middle, others, hfirst, hrest, rfl⟩ := play?_cons.mp hplay
      exact play?_cons.mpr ⟨earlier, middle, _, hfirst, ih hrest, rfl⟩

/-- Sequences of operations keep the flag, and ask the processor as often as each of them masks. -/
theorem asked_of_play? {operations : List Operation} {done : List Completed}
    (hplay : setting.play? operations = some (done, later)) :
    done.map (·.operation) = operations ∧ later.flag = setting.flag ∧
      later.asked = setting.asked ++ maskings setting.flag (done.map (·.masks)).sum := by
  induction operations generalizing setting done with
  | nil =>
      cases hplay
      simp [maskings]
  | cons first operations ih =>
      obtain ⟨returned, middle, others, hfirst, hrest, rfl⟩ := play?_cons.mp hplay
      obtain ⟨hflag, hasked⟩ := asked_of_do? hfirst
      obtain ⟨hoperations, hlast, hmore⟩ := ih hrest
      refine ⟨by rw [List.map_cons, hoperations, operation_of_do? hfirst], hlast.trans hflag, ?_⟩
      rw [hmore, hasked, hflag, List.append_assoc, maskings_add]
      rfl

theorem quiescent_of_play? {operations : List Operation} {done : List Completed}
    (hplay : setting.play? operations = some (done, later)) (hworld : setting.world.Quiescent) :
    later.world.Quiescent := by
  induction operations generalizing setting done with
  | nil =>
      cases hplay
      exact hworld
  | cons first operations ih =>
      obtain ⟨returned, middle, others, hfirst, hrest, rfl⟩ := play?_cons.mp hplay
      exact ih hrest (quiescent_of_do? hfirst hworld)

end Setting

/-- What is left of a sequence of operations when some of the drains are left out that have found
nothing. -/
inductive Abridges : List Completed → List Completed → Prop
  | nil : Abridges [] []
  | keep (returned : Completed) {done kept : List Completed} (habridges : Abridges done kept) :
      Abridges (returned :: done) (returned :: kept)
  | skip {returned : Completed} {done kept : List Completed} (hidle : returned.isIdle)
      (habridges : Abridges done kept) : Abridges (returned :: done) kept

theorem Abridges.refl (done : List Completed) : Abridges done done := by
  induction done with
  | nil => exact .nil
  | cons returned done ih => exact .keep returned ih

/-- Whatever drains that find nothing are left out, and whichever looks at published lengths are
left out or put in, the operations come to the same. -/
theorem Abridges.play? {done kept : List Completed} (habridges : Abridges done kept)
    {setting other later : Setting} {operations revised : List Operation}
    (hplay : setting.play? operations = some (done, later))
    (hsame : other.unasked = setting.unasked)
    (hrevised : revised.map (·.direct) = kept.map (·.operation.direct)) :
    ∃ done' later', other.play? revised = some (done', later') ∧
      done'.map (·.direct) = kept.map (·.direct) ∧ later'.unasked = later.unasked := by
  induction habridges generalizing setting other operations revised with
  | nil =>
      obtain rfl : operations = [] := by
        rw [← (Setting.asked_of_play? hplay).1]
        rfl
      obtain rfl : revised = [] := List.map_eq_nil_iff.mp hrevised
      cases hplay
      exact ⟨[], other, rfl, rfl, hsame⟩
  | keep returned habridges ih =>
      obtain ⟨first, operations, rfl⟩ : ∃ first rest, operations = first :: rest := by
        rw [← (Setting.asked_of_play? hplay).1]
        exact ⟨_, _, rfl⟩
      obtain ⟨new, revised, rfl, hnew, hrest⟩ := List.map_eq_cons_iff.mp hrevised
      obtain ⟨_, middle, _, hfirst, hmore, heq⟩ := Setting.play?_cons.mp hplay
      cases heq
      have hnew : new.direct = first.direct :=
        hnew.trans (congrArg Operation.direct (Setting.operation_of_do? hfirst))
      obtain ⟨returned', middle', hfirst', hreturned, hmiddle⟩ :=
        Setting.do?_revised hnew hsame hfirst
      obtain ⟨done', later', hplay', hdone, hlater⟩ := ih hmore hmiddle hrest
      refine ⟨returned' :: done', later', ?_, ?_, hlater⟩
      · simp [Setting.play?, hfirst', hplay']
      · rw [List.map_cons, List.map_cons, hreturned, hdone]
  | skip hidle habridges ih =>
      obtain ⟨first, operations, rfl⟩ : ∃ first rest, operations = first :: rest := by
        rw [← (Setting.asked_of_play? hplay).1]
        exact ⟨_, _, rfl⟩
      obtain ⟨_, middle, _, hfirst, hmore, heq⟩ := Setting.play?_cons.mp hplay
      cases heq
      exact ih hmore (hsame.trans (Setting.unasked_of_idle hfirst hidle).symm) hrevised

end CoreEngines
