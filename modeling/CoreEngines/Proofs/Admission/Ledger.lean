import CoreEngines.Proofs.Actions
import CoreEngines.Proofs.Runs

/-!
The ledger of admissions.  It keeps of a world what admissions are about: which threads were made,
which are on the lists of which registry, and what names they bear.  Few steps change it, and each
of those in one way.
-/

namespace CoreEngines

/-- The threads of a world, their lists and their names. -/
structure Ledger where
  made : Nat
  staged : Ref .registry → List (Ref .thread)
  roster : Ref .registry → List (Ref .thread)
  sched : Ref .thread → Option SchedRef

def World.ledger (world : World) : Ledger where
  made := world.threads.size
  staged registry := (world.registryAt? registry).elim [] (·.pending.toList)
  roster registry := (world.registryAt? registry).elim [] (·.roster.toList)
  sched thread := (world.threadAt? thread).elim none (·.sched)

namespace Ledger

/-- What a step changes. -/
def record (ledger : Ledger) : Happening → Ledger
  | .acted (.newThread _ _) _ => { ledger with made := ledger.made + 1 }
  | .acted (.registry registry (.enroll thread)) _ =>
      { ledger with
        staged := Function.update ledger.staged registry (ledger.staged registry ++ [thread])
        roster := Function.update ledger.roster registry (ledger.roster registry ++ [thread]) }
  | .acted (.registry registry .detach) _ =>
      { ledger with staged := Function.update ledger.staged registry [] }
  | .acted (.thread thread (.bind sched)) true =>
      { ledger with sched := Function.update ledger.sched thread (some sched) }
  | _ => ledger

/-- What a step can be answered. -/
def Answers (ledger : Ledger) : Happening → Prop
  | .acted (.newThread _ _) thread => thread.index = ledger.made
  | .acted (.registry registry .detach) threads => threads.toList = ledger.staged registry
  | .acted (.thread thread (.bind _)) first => first = true ↔ ledger.sched thread = none
  | _ => True

/-- A name that is recorded stays. -/
theorem record_sched {ledger : Ledger} {happening : Happening} {thread : Ref .thread}
    {sched : SchedRef} (hanswers : ledger.Answers happening)
    (hsched : ledger.sched thread = some sched) :
    (ledger.record happening).sched thread = some sched := by
  unfold record
  split
  case h_4 target name =>
    have hnone : ledger.sched target = none := hanswers.mp rfl
    have hne : thread ≠ target := by
      rintro rfl
      rw [hnone] at hsched
      cases hsched
    simpa only [Function.update_of_ne hne] using hsched
  all_goals exact hsched

end Ledger

section
variable {σ β : Type}

/-- What is told of all objects, when one of them changes. -/
theorem elim_setIfInBounds {kind : Kind} {objects : Array σ} {place : Ref kind} {old : σ}
    (hold : objects[place.index]? = some old) (value : σ) (missing : β)
    (tell : σ → β) :
    (fun other : Ref kind =>
        (objects.setIfInBounds place.index value)[other.index]?.elim missing tell) =
      Function.update (fun other : Ref kind => objects[other.index]?.elim missing tell) place
        (tell value) := by
  funext other
  by_cases hother : other = place
  · subst hother
    rw [Function.update_self, World.getElem?_setIfInBounds_self hold]
    rfl
  · rw [Function.update_of_ne hother, World.getElem?_setIfInBounds_of_ne hother]

theorem elim_push (kind : Kind) (objects : Array σ) {value : σ} {missing : β} (tell : σ → β)
    (hvalue : tell value = missing) :
    (fun other : Ref kind => (objects.push value)[other.index]?.elim missing tell) =
      fun other : Ref kind => objects[other.index]?.elim missing tell := by
  funext other
  rw [Array.getElem?_push]
  split
  case isTrue hlast => simp [hlast, hvalue]
  case isFalse => rfl

end

namespace World

variable {world later : World}

theorem ledger_setThread {target : Ref .thread} {object : Thread}
    (hobject : world.threadAt? target = some object) (object' : Thread) :
    World.ledger { world with
      threads := world.threads.setIfInBounds target.index object' } =
        { world.ledger with sched := Function.update world.ledger.sched target object'.sched } := by
  have hsched := elim_setIfInBounds hobject object' none Thread.sched
  simp only [ledger, threadAt?, Array.size_setIfInBounds, hsched]
  rfl

theorem ledger_setRegistry {target : Ref .registry} {object : Registry}
    (hobject : world.registryAt? target = some object) (object' : Registry) :
    World.ledger { world with
      registries := world.registries.setIfInBounds target.index object' } =
        { world.ledger with
          staged := Function.update world.ledger.staged target object'.pending.toList
          roster := Function.update world.ledger.roster target object'.roster.toList } := by
  have hstaged := elim_setIfInBounds hobject object' [] (·.pending.toList)
  have hroster := elim_setIfInBounds hobject object' [] (·.roster.toList)
  simp only [ledger, registryAt?, hstaged, hroster]
  rfl

theorem ledger_thread {target : Ref .thread} {object : Thread} (access : Thread.Access)
    (hobject : world.threadAt? target = some object) :
    world.ledger.Answers (.acted (.thread target access) (object.access access).1) ∧
      World.ledger { world with
        threads := world.threads.setIfInBounds target.index (object.access access).2 } =
          world.ledger.record (.acted (.thread target access) (object.access access).1) := by
  have hsched : world.ledger.sched target = object.sched := by simp [ledger, hobject]
  rw [ledger_setThread hobject]
  have hsame : (object.access access).2.sched = object.sched →
      Function.update world.ledger.sched target (object.access access).2.sched =
        world.ledger.sched := fun hsame => by
    rw [hsame, ← hsched, Function.update_eq_self]
  cases access with
  | bind sched =>
      cases hold : object.sched with
      | some other =>
          rw [hsame (by simp [Thread.access, hold])]
          simp [Ledger.Answers, Ledger.record, Thread.access, hsched, hold]
      | none => simp [Ledger.Answers, Ledger.record, Thread.access, hsched, hold]
  | _ => exact ⟨trivial, by rw [hsame rfl]; rfl⟩

theorem ledger_registry {target : Ref .registry} {object : Registry} (access : Registry.Access)
    (hobject : world.registryAt? target = some object) :
    world.ledger.Answers (.acted (.registry target access) (object.access access).1) ∧
      World.ledger { world with
        registries := world.registries.setIfInBounds target.index (object.access access).2 } =
          world.ledger.record (.acted (.registry target access) (object.access access).1) := by
  have hstaged : world.ledger.staged target = object.pending.toList := by simp [ledger, hobject]
  have hroster : world.ledger.roster target = object.roster.toList := by simp [ledger, hobject]
  rw [ledger_setRegistry hobject]
  cases access with
  | enroll thread =>
      refine ⟨trivial, ?_⟩
      simp [Ledger.record, Registry.access, hstaged, hroster]
  | detach =>
      refine ⟨hstaged.symm, ?_⟩
      simp [Ledger.record, Registry.access, ← hroster]
  | _ =>
      refine ⟨trivial, ?_⟩
      simp [Ledger.record, Registry.access, ← hstaged, ← hroster]

theorem ledger_newThread (id : ThreadId) (mailbox : Ref .mailbox) :
    World.ledger { world with threads := world.threads.push (.new id mailbox) } =
      { world.ledger with made := world.ledger.made + 1 } := by
  have hsched := elim_push .thread world.threads Thread.sched
    (show Thread.sched (.new id mailbox) = none from rfl)
  simp only [ledger, threadAt?, Array.size_push, hsched]
  rfl

theorem ledger_newRegistry (core : CoreId) (reserve : Nat) (counter : Ref .counter) :
    World.ledger { world with
      registries := world.registries.push (.new core reserve counter) } = world.ledger := by
  have hstaged := elim_push .registry world.registries (·.pending.toList)
    (show (Registry.new core reserve counter).pending.toList = [] from rfl)
  have hroster := elim_push .registry world.registries (·.roster.toList)
    (show (Registry.new core reserve counter).roster.toList = [] from rfl)
  simp only [ledger, registryAt?, hstaged, hroster]
  rfl

/-- The ledger goes along with the world. -/
theorem ledger_after {happening : Happening} (hafter : world.After happening later) :
    world.ledger.Answers happening ∧ later.ledger = world.ledger.record happening := by
  cases happening with
  | acted action answer =>
      cases effect_of_perform? hafter with
      | thread access hobject => exact ledger_thread access hobject
      | registry access hobject => exact ledger_registry access hobject
      | newThread id mailbox => exact ⟨rfl, ledger_newThread id mailbox⟩
      | newRegistry core reserve counter => exact ⟨trivial, ledger_newRegistry core reserve counter⟩
      | _ => exact ⟨trivial, rfl⟩
  | _ =>
      obtain rfl : later = world := hafter
      exact ⟨trivial, rfl⟩

end World

end CoreEngines
