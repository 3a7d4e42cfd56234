import CoreEngines.Proofs.Admission.Ledger
import CoreEngines.Proofs.Behavior
import CoreEngines.Proofs.Invariants

/-!
The upkeep of locks.  Every lock that is held is in the hands of one operation, and a registry
whose roster has grown shows it as soon as the one who let it grow is done with it.
-/

namespace CoreEngines

def World.tally (world : World) (registry : Ref .registry) : Nat × Nat :=
  (world.registryAt? registry).elim (0, 0) fun registry => (registry.count, registry.roster.size)

/-- What a step makes of the lengths of rosters. -/
def Happening.tally (lengths : Ref .registry → Nat × Nat) : Happening → Ref .registry → Nat × Nat
  | .acted (.registry registry (.enroll _)) length =>
      Function.update lengths registry ((lengths registry).1, length)
  | .acted (.registry registry (.publish count)) _ =>
      Function.update lengths registry (count, (lengths registry).2)
  | _ => lengths

section
variable {world later : World} {happening : Happening}

theorem World.tally_setRegistry {target : Ref .registry} {object : Registry}
    (hobject : world.registryAt? target = some object) (object' : Registry) :
    World.tally { world with registries := world.registries.setIfInBounds target.index object' } =
      Function.update world.tally target (object'.count, object'.roster.size) :=
  elim_setIfInBounds hobject object' (0, 0) fun registry => (registry.count, registry.roster.size)

/-- The lengths of rosters go along with the world. -/
theorem World.tally_after (hafter : world.After happening later) :
    later.tally = happening.tally world.tally := by
  cases happening with
  | acted action answer =>
      cases effect_of_perform? hafter with
      | @registry target object access hobject =>
          have hobject' : world.tally target = (object.count, object.roster.size) := by
            simp [tally, hobject]
          rw [tally_setRegistry hobject]
          cases access with
          | enroll thread => simp [Happening.tally, Registry.access, hobject']
          | publish count => simp [Happening.tally, Registry.access, hobject']
          | _ => simp [Happening.tally, Registry.access, ← hobject']
      | newRegistry core reserve counter =>
          exact elim_push .registry world.registries (fun registry =>
            (registry.count, registry.roster.size)) rfl
      | _ => rfl
  | _ =>
      obtain rfl : later = world := hafter
      rfl

theorem World.registryAt?_of_peek {target : Ref .registry} {count : Nat}
    (hperform : world.perform? (.registry target .peek) = some (count, later)) :
    ∃ registry, world.registryAt? target = some registry ∧ registry.count = count := by
  simp only [perform?, accessAt?_eq, Option.map_map, Option.map_eq_some_iff] at hperform
  obtain ⟨object, hobject, heq⟩ := hperform
  cases heq
  exact ⟨object, hobject, rfl⟩

theorem World.tally_of_peek {target : Ref .registry} {count : Nat}
    (hperform : world.perform? (.registry target .peek) = some (count, later)) :
    (world.tally target).1 = count := by
  obtain ⟨registry, hregistry, rfl⟩ := World.registryAt?_of_peek hperform
  simp [tally, hregistry]

theorem Happening.tally_of_inert (hinert : happening.Inert) (lengths : Ref .registry → Nat × Nat) :
    happening.tally lengths = lengths := by
  unfold Happening.tally
  split <;> first | rfl | simp at hinert

end

/-- The locks of a world, and in whose hands they are. -/
structure Held (world : World) (hands : Nat → Keeping) : Prop where
  nodup : world.held.Nodup
  mem_iff : ∀ lock, lock ∈ world.held ↔ ∃ number, (hands number).lock? = some lock
  alone : ∀ {number other lock}, (hands number).lock? = some lock →
    (hands other).lock? = some lock → number = other

namespace Held

variable {world later : World} {hands : Nat → Keeping} {number : Nat}

theorem relabel {hands' : Nat → Keeping} (hheld : Held world hands)
    (hsame : later.held = world.held)
    (hhands : ∀ other, (hands' other).lock? = (hands other).lock?) :
    Held later hands' where
  nodup := hsame ▸ hheld.nodup
  mem_iff lock := by simp only [hsame, hhands, hheld.mem_iff]
  alone hnumber hother := hheld.alone (hhands _ ▸ hnumber) (hhands _ ▸ hother)

theorem acquire {lock : Lock} {answer : Unit} (hheld : Held world hands)
    (hfree : hands number = .free)
    (hperform : world.perform? (.acquire lock) = some (answer, later)) :
    Held later (Function.update hands number (.holding lock)) := by
  obtain ⟨hnot, rfl⟩ := World.perform?_acquire hperform
  have hhands : ∀ other taken, (Function.update hands number (.holding lock) other).lock? =
      some taken ↔ (other = number ∧ taken = lock) ∨ (hands other).lock? = some taken := by
    intro other taken
    by_cases hother : other = number
    · subst hother
      simp [hfree, Keeping.lock?, eq_comm]
    · simp [hother]
  refine ⟨List.nodup_cons.mpr ⟨hnot, hheld.nodup⟩, ?_, ?_⟩
  · intro taken
    simp [hhands, exists_or, ← hheld.mem_iff]
  · intro one other taken hone hother
    rcases (hhands one taken).mp hone with ⟨rfl, rfl⟩ | hold
    · rcases (hhands other taken).mp hother with ⟨rfl, _⟩ | hold
      · rfl
      · exact absurd ((hheld.mem_iff taken).mpr ⟨other, hold⟩) hnot
    · rcases (hhands other taken).mp hother with ⟨rfl, rfl⟩ | hold'
      · exact absurd ((hheld.mem_iff taken).mpr ⟨one, hold⟩) hnot
      · exact hheld.alone hold hold'

theorem release {lock : Lock} {answer : Unit} (hheld : Held world hands)
    (hholding : hands number = .holding lock)
    (hperform : world.perform? (.release lock) = some (answer, later)) :
    Held later (Function.update hands number .free) := by
  obtain rfl := World.perform?_release hperform
  have hmine : (hands number).lock? = some lock := by rw [hholding]; rfl
  have hhands : ∀ other taken, (Function.update hands number .free other).lock? = some taken ↔
      taken ≠ lock ∧ (hands other).lock? = some taken := by
    intro other taken
    by_cases hother : other = number
    · subst hother
      simpa [Keeping.lock?, hholding] using fun hne => Ne.symm hne
    · rw [Function.update_of_ne hother]
      refine ⟨fun htaken => ⟨?_, htaken⟩, And.right⟩
      rintro rfl
      exact hother (hheld.alone htaken hmine)
  refine ⟨hheld.nodup.erase lock, ?_, ?_⟩
  · intro taken
    simp only [hhands, hheld.nodup.mem_erase_iff, hheld.mem_iff, exists_and_left]
  · intro one other taken hone hother
    exact hheld.alone ((hhands one taken).mp hone).2 ((hhands other taken).mp hother).2

end Held

/-- The lengths of rosters, and who has still to publish one. -/
structure Shown (lengths : Ref .registry → Nat × Nat) (hands : Nat → Keeping) : Prop where
  owing : ∀ {number registry length}, hands number = .owing registry length →
    (lengths registry).2 = length
  published : ∀ registry, (∀ number length, hands number ≠ .owing registry length) →
    (lengths registry).1 = (lengths registry).2

namespace Shown

variable {lengths : Ref .registry → Nat × Nat} {hands : Nat → Keeping} {number : Nat}

theorem relabel {hands' : Nat → Keeping} (hshown : Shown lengths hands)
    (hhands : ∀ other registry length, hands' other = .owing registry length ↔
      hands other = .owing registry length) : Shown lengths hands' where
  owing howing := hshown.owing ((hhands _ _ _).mp howing)
  published registry hnone := by
    apply hshown.published registry
    intro other length howing
    exact hnone other length ((hhands _ _ _).mpr howing)

theorem enroll {registry : Ref .registry} {length : Nat} (hshown : Shown lengths hands)
    (hnumber : ∀ registry length, hands number ≠ .owing registry length)
    (hothers : ∀ other length, hands other ≠ .owing registry length) :
    Shown (Function.update lengths registry ((lengths registry).1, length))
      (Function.update hands number (.owing registry length)) where
  owing {other place owed} howing := by
    by_cases hother : other = number
    · subst hother
      rw [Function.update_self] at howing
      cases howing
      simp
    · rw [Function.update_of_ne hother] at howing
      have hplace : place ≠ registry := by
        rintro rfl
        exact hothers other owed howing
      rw [Function.update_of_ne hplace]
      exact hshown.owing howing
  published place hnone := by
    have hplace : place ≠ registry := by
      rintro rfl
      exact hnone number length (Function.update_self ..)
    rw [Function.update_of_ne hplace]
    apply hshown.published
    intro other owed howing
    have hother : other ≠ number := by
      rintro rfl
      exact hnumber place owed howing
    exact hnone other owed (by rwa [Function.update_of_ne hother])

theorem publish {registry : Ref .registry} {length : Nat} {lock : Lock}
    (hshown : Shown lengths hands) (howing : hands number = .owing registry length)
    (hothers : ∀ other owed, hands other = .owing registry owed → other = number) :
    Shown (Function.update lengths registry (length, (lengths registry).2))
      (Function.update hands number (.holding lock)) where
  owing {other place owed} hother := by
    have hne : other ≠ number := by
      rintro rfl
      simp at hother
    rw [Function.update_of_ne hne] at hother
    have hplace : place ≠ registry := by
      rintro rfl
      exact hne (hothers other owed hother)
    rw [Function.update_of_ne hplace]
    exact hshown.owing hother
  published place hnone := by
    by_cases hplace : place = registry
    · subst hplace
      rw [Function.update_self]
      exact (hshown.owing howing).symm
    · rw [Function.update_of_ne hplace]
      apply hshown.published
      intro other owed hother
      have hne : other ≠ number := by
        rintro rfl
        cases howing.symm.trans hother
        exact hplace rfl
      exact hnone other owed (by rwa [Function.update_of_ne hne])

end Shown

structure Kept (world : World) (hands : Nat → Keeping) : Prop where
  held : Held world hands
  shown : Shown world.tally hands

namespace Kept

variable {world later : World} {hands : Nat → Keeping} {number : Nat} {happening : Happening}

theorem idle : Kept {} fun _ => .free where
  held :=
    { nodup := List.nodup_nil
      mem_iff := by simp [Keeping.lock?]
      alone := by simp [Keeping.lock?] }
  shown :=
    { owing := by simp
      published := fun registry _ => by simp [World.tally, World.registryAt?] }

theorem owner (hkept : Kept world hands) {registry : Ref .registry} {other length : Nat}
    (hnumber : (hands number).lock? = some (.roster registry))
    (howing : hands other = .owing registry length) : other = number := by
  have hother : (hands other).lock? = some (.roster registry) := by
    rw [howing]
    rfl
  exact hkept.held.alone hother hnumber

/-- A step that has nothing to do with locks. -/
theorem inert (hkept : Kept world hands) (hafter : world.After happening later)
    (hinert : happening.Inert) : Kept later hands := by
  have hheld : later.held = world.held := by
    cases happening with
    | acted action answer =>
        cases World.effect_of_perform? hafter with
        | acquire hfree => simp at hinert
        | release lock => simp at hinert
        | _ => rfl
    | _ =>
        obtain rfl : later = world := hafter
        rfl
  refine ⟨hkept.held.relabel hheld fun _ => rfl, ?_⟩
  rw [World.tally_after hafter, Happening.tally_of_inert hinert]
  exact hkept.shown

theorem relabel {state next : Keeping} (hkept : Kept world hands) (hstate : hands number = state)
    (hheld : later.held = world.held) (hlock : next.lock? = state.lock?) :
    Held later (Function.update hands number next) := by
  apply hkept.held.relabel hheld
  intro other
  by_cases hother : other = number
  · subst hother
    rw [Function.update_self, hlock, hstate]
  · rw [Function.update_of_ne hother]

theorem unowed {state next : Keeping} (hkept : Kept world hands) (hstate : hands number = state)
    (hnow : ∀ registry length, state ≠ .owing registry length)
    (hthen : ∀ registry length, next ≠ .owing registry length) :
    Shown world.tally (Function.update hands number next) := by
  apply hkept.shown.relabel
  intro other registry length
  by_cases hother : other = number
  · subst hother
    simp [hstate, hnow, hthen]
  · rw [Function.update_of_ne hother]

/-- Every step that is allowed keeps the locks in order. -/
theorem step {state next : Keeping} (hkept : Kept world hands) (hstate : hands number = state)
    (hafter : world.After happening later) (hnext : state.next? happening = some next) :
    Kept later (Function.update hands number next) := by
  have htally := World.tally_after hafter
  have hstay : later = world → state = .free ∧ .free = next →
      Kept later (Function.update hands number next) := by
    rintro rfl ⟨rfl, rfl⟩
    rwa [← hstate, Function.update_eq_self]
  induction happening using Happening.cases_inert with
  | inert happening hinert =>
      rw [Keeping.next?_of_inert hinert] at hnext
      cases hnext
      rw [← hstate, Function.update_eq_self]
      exact hkept.inert hafter hinert
  | acquire lock answer =>
      simp only [Keeping.next?, Option.ite_none_right_eq_some, Option.some.injEq] at hnext
      obtain ⟨rfl, rfl⟩ := hnext
      refine ⟨hkept.held.acquire hstate hafter, ?_⟩
      rw [htally]
      exact hkept.unowed hstate (by simp) (by simp)
  | release lock answer =>
      simp only [Keeping.next?, Option.ite_none_right_eq_some, Option.some.injEq] at hnext
      obtain ⟨rfl, rfl⟩ := hnext
      refine ⟨hkept.held.release hstate hafter, ?_⟩
      rw [htally]
      exact hkept.unowed hstate (by simp) (by simp)
  | enroll registry thread length =>
      simp only [Keeping.next?, Option.ite_none_right_eq_some, Option.some.injEq] at hnext
      obtain ⟨rfl, rfl⟩ := hnext
      refine ⟨hkept.relabel hstate ?_ rfl, ?_⟩
      · cases World.effect_of_perform? hafter
        rfl
      · rw [htally]
        apply hkept.shown.enroll
        · simp [hstate]
        · intro other owed howing
          obtain rfl := hkept.owner (by rw [hstate]; rfl) howing
          cases hstate.symm.trans howing
  | publish registry count answer =>
      simp only [Keeping.next?, Option.ite_none_right_eq_some, Option.some.injEq] at hnext
      obtain ⟨rfl, rfl⟩ := hnext
      refine ⟨hkept.relabel hstate ?_ rfl, ?_⟩
      · cases World.effect_of_perform? hafter
        rfl
      · rw [htally]
        exact hkept.shown.publish hstate fun other owed => hkept.owner (by rw [hstate]; rfl)
  | answered callback result =>
      simp only [Keeping.next?, Option.ite_none_right_eq_some, Option.some.injEq] at hnext
      exact hstay hafter hnext
  | called procedure =>
      simp only [Keeping.next?, Option.ite_none_right_eq_some, Option.some.injEq] at hnext
      exact hstay hafter hnext

end Kept

def handsOf (states : Nat → Option Keeping) (number : Nat) : Keeping :=
  (states number).getD .free

theorem handsOf_update (states : Nat → Option Keeping) (number : Nat) (state : Option Keeping) :
    handsOf (Function.update states number state) =
      Function.update (handsOf states) number (state.getD .free) := by
  funext other
  by_cases hother : other = number
  · subst hother
    simp [handsOf]
  · simp [handsOf, hother]

/-- While the lock of a registry is free, its roster is as long as was published. -/
theorem Kept.published {world : World} {hands : Nat → Keeping} {registry : Ref .registry}
    (hkept : Kept world hands) (hfree : .roster registry ∉ world.held) :
    (world.tally registry).1 = (world.tally registry).2 := by
  apply hkept.shown.published
  intro number length howing
  exact hfree ((hkept.held.mem_iff _).mpr ⟨number, by rw [howing]; rfl⟩)

/-- All runs keep the locks in order. -/
theorem kept_upholds : keeping.Upholds {} fun _ world states => Kept world (handsOf states) where
  idle := Kept.idle
  start := by
    intro history world states index number operation hkept hnone
    have hfree : handsOf states number = .free := by simp [handsOf, hnone]
    rw [handsOf_update]
    change Kept world (Function.update (handsOf states) number .free)
    rwa [← hfree, Function.update_eq_self]
  step := by
    intro history world states later state happening index number hkept hstate _ hafter
    have hhands : handsOf states number = state := by simp [handsOf, hstate]
    refine ⟨trivial, fun hallows => ?_⟩
    obtain ⟨next, hnext⟩ := Option.isSome_iff_exists.mp hallows
    rw [handsOf_update, (keeping_step hnext).2]
    exact hkept.step hhands hafter hnext
  finish := by
    intro history world states state index number operation result hkept hstate hreturns
    have hfree : handsOf states number = .free := by
      obtain rfl : state = .free := hreturns
      simp [handsOf, hstate]
    rw [handsOf_update]
    change Kept world (Function.update (handsOf states) number .free)
    rwa [← hfree, Function.update_eq_self]

end CoreEngines
