import CoreEngines.World
import Mathlib.Data.List.Nodup

/-!
What actions do.  Each action touches objects of one kind, and one of them at most, so what is
known of all others carries over.
-/

namespace CoreEngines

def Action.mailbox? : Action → Option (Ref .mailbox)
  | .mailbox target _ => some target
  | _ => none

def Action.lock? : Action → Option Lock
  | .acquire lock | .release lock => some lock
  | _ => none

/-- There is an answer to everything that can be done. -/
theorem Action.nonempty_answer (action : Action) : Nonempty action.Answer := by
  cases action with
  | counter target access => cases access <;> exact inferInstance
  | mailbox target access => cases access <;> exact inferInstance
  | thread target access =>
      cases access with
      | readStorage => exact ⟨.empty⟩
      | _ => exact inferInstance
  | registry target access =>
      cases access with
      | shape => exact ⟨⟨⟨0⟩, 0, ⟨0⟩⟩⟩
      | _ => exact inferInstance
  | context target access =>
      cases access with
      | shape => exact ⟨⟨⟨0⟩, false, .startup, ⟨0⟩, ⟨0⟩⟩⟩
      | claimCache => exact ⟨.granted⟩
      | _ => exact inferInstance
  | engine target access =>
      cases access with
      | shape => exact ⟨⟨⟨0⟩, .disabled, {}, ⟨0⟩⟩⟩
      | claimContext => exact ⟨.granted⟩
      | readBootstrap => exact ⟨.empty⟩
      | _ => exact inferInstance
  | _ => exact inferInstance

/-- All that an action can do to a world: which object it finds, what it answers, and what it
leaves behind. -/
inductive World.Effect (world : World) : (action : Action) → action.Answer → World → Prop
  | counter {target : Ref .counter} {object : SerialCounter} (access : SerialCounter.Access)
      (hobject : world.counterAt? target = some object) :
      Effect world (.counter target access) (object.access access).1
        { world with
          counters := world.counters.setIfInBounds target.index (object.access access).2 }
  | mailbox {target : Ref .mailbox} {object : Mailbox} (access : Mailbox.Access)
      (hobject : world.mailboxAt? target = some object) :
      Effect world (.mailbox target access) (object.access access).1
        { world with
          mailboxes := world.mailboxes.setIfInBounds target.index (object.access access).2 }
  | thread {target : Ref .thread} {object : Thread} (access : Thread.Access)
      (hobject : world.threadAt? target = some object) :
      Effect world (.thread target access) (object.access access).1
        { world with
          threads := world.threads.setIfInBounds target.index (object.access access).2 }
  | registry {target : Ref .registry} {object : Registry} (access : Registry.Access)
      (hobject : world.registryAt? target = some object) :
      Effect world (.registry target access) (object.access access).1
        { world with
          registries := world.registries.setIfInBounds target.index (object.access access).2 }
  | context {target : Ref .context} {object object' : Context} {access : Context.Access}
      {answer : access.Answer} (hobject : world.contextAt? target = some object)
      (haccess : object.access? access = some (answer, object')) :
      Effect world (.context target access) answer
        { world with contexts := world.contexts.setIfInBounds target.index object' }
  | engine {target : Ref .engine} {object object' : Engine} {access : Engine.Access}
      {answer : access.Answer} (hobject : world.engineAt? target = some object)
      (haccess : object.access? access = some (answer, object')) :
      Effect world (.engine target access) answer
        { world with engines := world.engines.setIfInBounds target.index object' }
  | acquire {lock : Lock} (hfree : lock ∉ world.held) :
      Effect world (.acquire lock) () { world with held := lock :: world.held }
  | release (lock : Lock) :
      Effect world (.release lock) () { world with held := world.held.erase lock }
  | newCounter (counter : SerialCounter) :
      Effect world (.newCounter counter) ⟨world.counters.size⟩
        { world with counters := world.counters.push counter }
  | newMailbox {reserve : Nat} (hallocatable : Slots.allocatable reserve) :
      Effect world (.newMailbox reserve) (some ⟨world.mailboxes.size⟩)
        { world with mailboxes := world.mailboxes.push (.new reserve) }
  | noMailbox {reserve : Nat} (hallocatable : ¬ Slots.allocatable reserve) :
      Effect world (.newMailbox reserve) none world
  | newThread (id : ThreadId) (mailbox : Ref .mailbox) :
      Effect world (.newThread id mailbox) ⟨world.threads.size⟩
        { world with threads := world.threads.push (.new id mailbox) }
  | newRegistry (core : CoreId) (reserve : Nat) (counter : Ref .counter) :
      Effect world (.newRegistry core reserve counter) ⟨world.registries.size⟩
        { world with registries := world.registries.push (.new core reserve counter) }
  | newContext (shape : ContextShape) :
      Effect world (.newContext shape) ⟨world.contexts.size⟩
        { world with contexts := world.contexts.push (.new shape) }
  | newEngine (shape : EngineShape) :
      Effect world (.newEngine shape) ⟨world.engines.size⟩
        { world with engines := world.engines.push (.new shape) }

namespace World

variable {world later : World}

theorem effect_of_perform? {action : Action} {answer : action.Answer}
    (hperform : world.perform? action = some (answer, later)) :
    world.Effect action answer later := by
  cases action with
  | counter target access =>
      simp only [perform?, accessAt?_eq, Option.map_map, Option.map_eq_some_iff] at hperform
      obtain ⟨object, hobject, heq⟩ := hperform
      cases heq
      exact .counter access hobject
  | mailbox target access =>
      simp only [perform?, accessAt?_eq, Option.map_map, Option.map_eq_some_iff] at hperform
      obtain ⟨object, hobject, heq⟩ := hperform
      cases heq
      exact .mailbox access hobject
  | thread target access =>
      simp only [perform?, accessAt?_eq, Option.map_map, Option.map_eq_some_iff] at hperform
      obtain ⟨object, hobject, heq⟩ := hperform
      cases heq
      exact .thread access hobject
  | registry target access =>
      simp only [perform?, accessAt?_eq, Option.map_map, Option.map_eq_some_iff] at hperform
      obtain ⟨object, hobject, heq⟩ := hperform
      cases heq
      exact .registry access hobject
  | context target access =>
      simp only [perform?, Option.bind_eq_some_iff, Option.map_eq_some_iff] at hperform
      obtain ⟨object, hobject, ⟨_, object'⟩, haccess, heq⟩ := hperform
      cases heq
      exact .context hobject haccess
  | engine target access =>
      simp only [perform?, Option.bind_eq_some_iff, Option.map_eq_some_iff] at hperform
      obtain ⟨object, hobject, ⟨_, object'⟩, haccess, heq⟩ := hperform
      cases heq
      exact .engine hobject haccess
  | acquire lock =>
      simp only [perform?] at hperform
      split at hperform
      · cases hperform
      · cases hperform
        exact .acquire ‹_›
  | release lock => cases hperform; exact .release lock
  | newCounter counter => cases hperform; exact .newCounter counter
  | newMailbox reserve =>
      simp only [perform?] at hperform
      split at hperform
      · cases hperform
        exact .newMailbox ‹_›
      · cases hperform
        exact .noMailbox ‹_›
  | newThread id mailbox => cases hperform; exact .newThread id mailbox
  | newRegistry core reserve counter => cases hperform; exact .newRegistry core reserve counter
  | newContext shape => cases hperform; exact .newContext shape
  | newEngine shape => cases hperform; exact .newEngine shape

theorem getElem?_setIfInBounds_of_ne {α : Type} {kind : Kind} {objects : Array α}
    {place other : Ref kind} (hother : other ≠ place) (value : α) :
    (objects.setIfInBounds place.index value)[other.index]? = objects[other.index]? := by
  have hindex : place.index ≠ other.index := fun hsame => by
    cases place
    cases other
    exact hother (congrArg Ref.mk hsame.symm)
  rw [Array.getElem?_setIfInBounds, if_neg hindex]

theorem getElem?_setIfInBounds_self {α : Type} {objects : Array α} {place : Nat} {old : α}
    (hold : objects[place]? = some old) (value : α) :
    (objects.setIfInBounds place value)[place]? = some value := by
  have hinside : place < objects.size := (Array.getElem?_eq_some_iff.mp hold).1
  simp [hinside]

/-- An access to a mailbox answers and leaves behind what `Mailbox.access` says. -/
theorem perform?_mailbox {target : Ref .mailbox} {access : Mailbox.Access}
    {answer : access.Answer}
    (hperform : world.perform? (.mailbox target access) = some (answer, later)) :
    ∃ mailbox, world.mailboxAt? target = some mailbox ∧ (mailbox.access access).1 = answer ∧
      later.mailboxAt? target = some (mailbox.access access).2 := by
  cases effect_of_perform? hperform with
  | mailbox access hobject =>
      exact ⟨_, hobject, rfl, getElem?_setIfInBounds_self hobject _⟩

/-- A place that an action does not look into keeps its mailbox, unless one is made there. -/
theorem perform?_mailboxAt? {action : Action} {answer : action.Answer} {target : Ref .mailbox}
    (hperform : world.perform? action = some (answer, later))
    (haction : action.mailbox? ≠ some target) :
    later.mailboxAt? target = world.mailboxAt? target ∨
      world.mailboxAt? target = none ∧
        ∃ reserve, Slots.allocatable reserve ∧
          later.mailboxAt? target = some (.new reserve) := by
  cases effect_of_perform? hperform with
  | mailbox access hobject =>
      have hne : target ≠ _ := fun hsame => haction (congrArg some hsame.symm)
      apply Or.inl
      rw [mailboxAt?, getElem?_setIfInBounds_of_ne hne, mailboxAt?]
  | @newMailbox reserve hallocatable =>
      by_cases hindex : target.index = world.mailboxes.size
      · refine Or.inr ⟨?_, reserve, hallocatable, ?_⟩ <;> simp [mailboxAt?, hindex]
      · apply Or.inl
        rw [mailboxAt?, mailboxAt?, Array.getElem?_push, if_neg hindex]
  | _ => exact Or.inl rfl

theorem perform?_acquire {lock : Lock} {answer : Unit}
    (hperform : world.perform? (.acquire lock) = some (answer, later)) :
    lock ∉ world.held ∧ later = { world with held := lock :: world.held } := by
  cases effect_of_perform? hperform with
  | acquire hfree => exact ⟨hfree, rfl⟩

theorem perform?_release {lock : Lock} {answer : Unit}
    (hperform : world.perform? (.release lock) = some (answer, later)) :
    later = { world with held := world.held.erase lock } := by
  cases effect_of_perform? hperform
  rfl

/-- A lock changes hands only when it is named. -/
theorem perform?_mem_held {action : Action} {answer : action.Answer} {lock : Lock}
    (hperform : world.perform? action = some (answer, later))
    (haction : action.lock? ≠ some lock) : lock ∈ later.held ↔ lock ∈ world.held := by
  cases effect_of_perform? hperform with
  | acquire hfree =>
      have hne : lock ≠ _ := fun hsame => haction (congrArg some hsame.symm)
      simp [hne]
  | release other =>
      have hne : lock ≠ other := fun hsame => haction (congrArg some hsame.symm)
      exact List.mem_erase_of_ne hne
  | _ => exact Iff.rfl

/-- No lock is held twice. -/
theorem perform?_held_nodup {action : Action} {answer : action.Answer}
    (hperform : world.perform? action = some (answer, later)) (hnodup : world.held.Nodup) :
    later.held.Nodup := by
  cases effect_of_perform? hperform with
  | acquire hfree => exact List.nodup_cons.mpr ⟨hfree, hnodup⟩
  | release lock => exact hnodup.erase lock
  | _ => exact hnodup

end World

end CoreEngines
