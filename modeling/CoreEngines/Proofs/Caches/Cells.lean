import CoreEngines.Proofs.Caches.Attempts
import CoreEngines.Proofs.Permanence

/-!
The cell of a template cache.  It is being built while one attempt has claimed it and has not seen
to what came of that, and then nobody else has; otherwise it holds what the host has returned, if it
has returned anything yet.
-/

namespace CoreEngines

open Program

def World.cacheOf? (world : World) (target : Ref .context) : Option (OnceCell CacheRef) :=
  (world.contextAt? target).map (·.cache)

theorem World.cacheOf?_of_contextAt? {world : World} {target : Ref .context} {context : Context}
    (hcontext : world.contextAt? target = some context) :
    world.cacheOf? target = some context.cache :=
  congrArg (Option.map _) hcontext

/-- The host has failed for some time, and then has returned this, or nothing so far. -/
def Returned (builds : List (Except Failure CacheRef)) (built : Option CacheRef) : Prop :=
  ∃ failures : List Failure, builds = failures.map .error ++ built.toList.map .ok

theorem returned_nil : Returned [] none :=
  ⟨[], rfl⟩

theorem Returned.concat {builds : List (Except Failure CacheRef)} (hreturned : Returned builds none)
    (result : Except Failure CacheRef) : Returned (builds ++ [result]) result.toOption := by
  obtain ⟨failures, rfl⟩ := hreturned
  cases result with
  | ok cache => exact ⟨failures, by simp [Except.toOption]⟩
  | error failure => exact ⟨failures ++ [failure], by simp [Except.toOption]⟩

theorem Returned.ok_mem_iff {builds : List (Except Failure CacheRef)} {built : Option CacheRef}
    (hreturned : Returned builds built) (cache : CacheRef) :
    .ok cache ∈ builds ↔ built = some cache := by
  obtain ⟨failures, rfl⟩ := hreturned
  simp

namespace Context

variable {target : Ref .context} {story : List Happening} {happening : Happening}

/-- An attempt that has been granted the cell and has not seen yet to what came of it. -/
def Held (target : Ref .context) (story : List Happening) : Prop :=
  .acted (.context target .claimCache) .granted ∈ story ∧
    .acted (.context target .abandonCache) () ∉ story ∧
      ∀ cache, .acted (.context target (.fillCache cache)) () ∉ story

def reply (story : List Happening) : Option CacheRef :=
  story.findSome? Happening.built?

theorem held_concat (hcache : happening.cache? ≠ some target) :
    Held target (story ++ [happening]) ↔ Held target story := by
  have hmem : ∀ {other : Happening}, other.cache? = some target →
      (other ∈ story ++ [happening] ↔ other ∈ story) := by
    intro other hother
    rw [List.mem_append, List.mem_singleton, or_iff_left]
    rintro rfl
    exact hcache hother
  exact and_congr (hmem rfl) (and_congr (not_congr (hmem rfl))
    (forall_congr' fun cache => not_congr (hmem rfl)))

/-- What a happening makes of the cell of a context. -/
inductive Turns (target : Ref .context) : Option (OnceCell CacheRef) → Happening →
    Option (OnceCell CacheRef) → Prop
  | made (shape : ContextShape) :
      Turns target none (.acted (.newContext shape) target) (some .vacant)
  | granted : Turns target (some .vacant) (.acted (.context target .claimCache) .granted)
      (some .building)
  | found (cache : CacheRef) :
      Turns target (some (.ready cache)) (.acted (.context target .claimCache) (.ready cache))
        (some (.ready cache))
  | filled (cell : OnceCell CacheRef) (cache : CacheRef) :
      Turns target (some cell) (.acted (.context target (.fillCache cache)) ())
        (some (cell.fill cache))
  | abandoned (cell : OnceCell CacheRef) :
      Turns target (some cell) (.acted (.context target .abandonCache) ()) (some cell.abandon)
  | aside {cell : Option (OnceCell CacheRef)} {happening : Happening}
      (hcache : happening.cache? ≠ some target) : Turns target cell happening cell

theorem turns_of_access? {object object' : Context} {access : Context.Access}
    {answer : access.Answer} (haccess : object.access? access = some (answer, object')) :
    Turns target (some object.cache) (.acted (.context target access) answer)
      (some object'.cache) := by
  cases access with
  | claimCache =>
      simp only [access?, Option.map_eq_some_iff] at haccess
      obtain ⟨⟨claim, cell⟩, hclaim, heq⟩ := haccess
      cases heq
      generalize object.cache = before at hclaim
      cases before with
      | vacant => cases hclaim; exact .granted
      | building => cases hclaim
      | ready cache => cases hclaim; exact .found cache
  | fillCache cache => cases haccess; exact .filled _ cache
  | abandonCache => cases haccess; exact .abandoned _
  | shape => cases haccess; exact .aside (by rintro ⟨⟩)
  | tick => cases haccess; exact .aside (by rintro ⟨⟩)

theorem turns_of_access {world : World} {place : Ref .context} {object object' : Context}
    {access : Context.Access} {answer : access.Answer}
    (hobject : world.contextAt? place = some object)
    (haccess : object.access? access = some (answer, object')) :
    Turns target (world.cacheOf? target) (.acted (.context place access) answer)
      (World.cacheOf?
        { world with contexts := world.contexts.setIfInBounds place.index object' } target) := by
  by_cases hplace : target = place
  · subst hplace
    have hlater : World.contextAt?
        { world with contexts := world.contexts.setIfInBounds target.index object' } target =
          some object' :=
      World.getElem?_setIfInBounds_self hobject object'
    rw [World.cacheOf?_of_contextAt? hobject, World.cacheOf?_of_contextAt? hlater]
    exact turns_of_access? haccess
  · have hsame : World.cacheOf?
        { world with contexts := world.contexts.setIfInBounds place.index object' } target =
          world.cacheOf? target := by
      rw [World.cacheOf?, World.contextAt?, World.getElem?_setIfInBounds_of_ne hplace]
      rfl
    rw [hsame]
    refine .aside ?_
    cases access <;> simp [Happening.cache?, Ne.symm hplace]

/-- Nothing else can come of a cell. -/
theorem turns_of_after {world later : World} (hafter : world.After happening later) :
    Turns target (world.cacheOf? target) happening (later.cacheOf? target) := by
  cases happening with
  | acted action answer =>
      cases World.effect_of_perform? hafter with
      | context hobject haccess => exact turns_of_access hobject haccess
      | newContext shape =>
          by_cases hplace : target.index = world.contexts.size
          · obtain rfl : target = ⟨world.contexts.size⟩ := congrArg Ref.mk hplace
            have hbefore : world.cacheOf? ⟨world.contexts.size⟩ = none := by
              simp [World.cacheOf?, World.contextAt?]
            have hlater : World.cacheOf? { world with contexts := world.contexts.push (.new shape) }
                ⟨world.contexts.size⟩ = some .vacant := by
              simp [World.cacheOf?, World.contextAt?, Context.new]
            rw [hbefore, hlater]
            exact .made shape
          · have hsame : World.cacheOf? { world with contexts := world.contexts.push (.new shape) }
                target = world.cacheOf? target := by
              rw [World.cacheOf?, World.contextAt?, Array.getElem?_push, if_neg hplace]
              rfl
            rw [hsame]
            exact .aside (by rintro ⟨⟩)
      | _ => exact .aside (by rintro ⟨⟩)
  | _ =>
      obtain rfl : later = world := hafter
      exact .aside (by rintro ⟨⟩)

end Context

namespace Journal

variable {journal journal' : Journal} {target : Ref .context} {number : Nat} {happening : Happening}

/-- The operation of this number has claimed the cell, and has not seen to it yet. -/
def Provides (journal : Journal) (target : Ref .context) (number : Nat) : Prop :=
  ∃ story, journal.own number = .started (.buildCache target) :: story ∧
    Context.Held target story

def reply (journal : Journal) (number : Nat) : Option CacheRef :=
  Context.reply (journal.own number)

theorem provides_iff {story : List Happening}
    (hown : journal.own number = .started (.buildCache target) :: story) :
    journal.Provides target number ↔ Context.Held target story := by
  constructor
  · rintro ⟨other, hother, hheld⟩
    cases hown.symm.trans hother
    exact hheld
  · exact fun hheld => ⟨story, hown, hheld⟩

theorem Gains.provides_of_ne {other : Nat} (hgains : journal.Gains journal' number happening)
    (hother : other ≠ number) :
    journal'.Provides target other ↔ journal.Provides target other := by
  rw [Provides, Provides, hgains.own_of_ne hother]

/-- Nobody comes to provide a cache, or is done with it, without touching its cell. -/
theorem Gains.provides (hgains : journal.Gains journal' number happening)
    (hcache : happening.cache? ≠ some target) (other : Nat) :
    journal'.Provides target other ↔ journal.Provides target other := by
  rcases eq_or_ne other number with rfl | hother
  · have hown := hgains.own_self
    constructor
    · rintro ⟨story, hstory, hheld⟩
      rcases List.eq_nil_or_concat story with rfl | ⟨story, last, rfl⟩
      · cases hheld.1
      · rw [List.concat_eq_append] at hstory hheld
        obtain ⟨hmade, hlast⟩ :=
          List.append_inj' (hown.symm.trans hstory : _ = (_ :: story) ++ [last]) rfl
        cases hlast
        exact ⟨story, hmade, (Context.held_concat hcache).mp hheld⟩
    · rintro ⟨story, hstory, hheld⟩
      rw [hstory] at hown
      exact ⟨story ++ [happening], hown, (Context.held_concat hcache).mpr hheld⟩
  · exact hgains.provides_of_ne hother

/-- The host has returned nothing new to an operation that has not been answered just now. -/
theorem Gains.reply {other : Nat} (hgains : journal.Gains journal' number happening)
    (hsilent : other ≠ number ∨ happening.build? = none) :
    journal'.reply other = journal.reply other := by
  rcases eq_or_ne other number with rfl | hother
  · have hbuilt : happening.built? = none := by
      rw [Happening.built?, hsilent.resolve_left fun hnot => hnot rfl]
      rfl
    rw [Journal.reply, hgains.own_self, Context.reply, List.findSome?_append,
      List.findSome?_singleton, hbuilt, Option.or_none]
    rfl
  · rw [Journal.reply, hgains.own_of_ne hother, Journal.reply]

/-- What the host does not come to, or for another operation, is not told. -/
theorem Gains.builds_aside (hgains : journal.Gains journal' number happening)
    (haside : journal'.doing? number ≠ some (.buildCache target) ∨ happening.build? = none) :
    journal'.builds target = journal.builds target := by
  have hnone : (journal'.doing? number).bind (Operation.build? target · happening) = none := by
    rw [Option.bind_eq_none_iff]
    intro operation hdoing
    cases operation with
    | buildCache place =>
        by_cases hplace : place = target
        · have hsilent := haside.resolve_left fun hnot => hnot (hplace ▸ hdoing)
          rw [Operation.build?, hsilent, ite_self]
        · rw [Operation.build?, if_neg hplace]
    | _ => rfl
  rw [Journal.builds, hgains.deedsBy, hnone]
  simp [Journal.builds]

theorem Gains.builds (hgains : journal.Gains journal' number happening)
    (hdoing : journal'.doing? number = some (.buildCache target)) :
    journal'.builds target = journal.builds target ++ happening.build?.toList := by
  rw [Journal.builds, hgains.deedsBy, hdoing, List.map_append, Option.bind_some,
    Operation.build?, if_pos rfl]
  cases happening.build? <;> rfl

end Journal

/-- Only what advances an attempt has to do with template caches. -/
theorem Runs.advances_attempt {start world : World} {history : History} {flows : Nat → Flow}
    {index number : Nat} {happening : Happening}
    (hrun : Runs start (history ++ [(index, happening)]) world flows)
    (hgains : (Journal.ofHistory history).Gains
      (Journal.ofHistory (history ++ [(index, happening)])) number happening)
    (huncached : ¬ happening.Uncached) : ∃ place made,
      (Journal.ofHistory history).own number = .started (.buildCache place) :: made ∧
        Context.Advance place made happening := by
  have hstep : happening.isStep := by
    cases happening <;> first | rfl | exact absurd ⟨rfl, rfl⟩ huncached
  obtain ⟨past, pastFlows, hpast⟩ := hrun.beginning
  have hown := hgains.own_self
  obtain hnil | ⟨operation, made, hmade⟩ := hpast.own_cases number
  · rw [hnil, List.nil_append] at hown
    obtain hnone | ⟨operation, story, hstarted⟩ := hrun.own_cases number
    · cases hown.symm.trans hnone
    · cases hown.symm.trans hstarted
      cases hstep
  · rw [hmade, List.cons_append] at hown
    cases hprovides : operation.provides with
    | false => exact absurd (hrun.uncached hown hprovides (by simp)) huncached
    | true =>
        cases operation with
        | buildCache place =>
            obtain ⟨rest, hreaches⟩ := hrun.reaches_step hown hstep
            exact ⟨place, made, hmade, Context.advance_of_reaches hreaches⟩
        | _ => cases hprovides

namespace Context

/-- How the cell of a context and the builds of its cache stand to each other. -/
inductive Kept (journal : Journal) (target : Ref .context) : Option (OnceCell CacheRef) → Prop
  | resting {cell : Option (OnceCell CacheRef)} (hcell : cell ≠ some .building)
      (hnobody : ∀ number, ¬ journal.Provides target number)
      (hreturned : Returned (journal.builds target) (cell.bind OnceCell.value?)) :
      Kept journal target cell
  | building (number : Nat) (hnumber : ∀ other, journal.Provides target other ↔ other = number)
      (hreturned : Returned (journal.builds target) (journal.reply number)) :
      Kept journal target (some .building)

section
variable {journal journal' : Journal} {cell cell' : Option (OnceCell CacheRef)} {number : Nat}

/-- What does not concern the cache of this context leaves everything as it stands. -/
theorem Kept.aside (hkept : Kept journal target cell)
    (hgains : journal.Gains journal' number happening) (hcache : happening.cache? ≠ some target)
    (haside : journal'.doing? number ≠ some (.buildCache target) ∨ happening.build? = none)
    (hturns : Turns target cell happening cell') : Kept journal' target cell' := by
  have hcell : cell' = cell ∨ cell = none ∧ cell' = some .vacant := by
    cases hturns with
    | made shape => exact Or.inr ⟨rfl, rfl⟩
    | aside => exact Or.inl rfl
    | _ => exact absurd rfl hcache
  have hbuilds := hgains.builds_aside haside
  cases hkept with
  | resting hresting hnobody hreturned =>
      have hnobody' := fun other hother => hnobody other ((hgains.provides hcache other).mp hother)
      rw [← hbuilds] at hreturned
      obtain rfl | ⟨rfl, rfl⟩ := hcell
      · exact .resting hresting hnobody' hreturned
      · exact .resting (by simp) hnobody' hreturned
  | building holder hholder hreturned =>
      obtain rfl | ⟨hnone, _⟩ := hcell
      · have hprovides := hgains.provides hcache
        have hreply : journal'.reply holder = journal.reply holder := by
          refine hgains.reply ?_
          rcases eq_or_ne holder number with rfl | hother
          · obtain ⟨story, hown, _⟩ := (hprovides holder).mpr ((hholder holder).mpr rfl)
            exact haside.imp_left fun hnot => absurd (Journal.doing?_of_own hown) hnot
          · exact Or.inl hother
        exact .building holder (fun other => (hprovides other).trans (hholder other))
          (hbuilds ▸ hreply ▸ hreturned)
      · cases hnone

/-- Whoever holds the cell is the one who builds it. -/
theorem Kept.of_provides (hkept : Kept journal target cell)
    (hprovides : journal.Provides target number) :
    cell = some .building ∧ (∀ other, journal.Provides target other → other = number) ∧
      Returned (journal.builds target) (journal.reply number) := by
  cases hkept with
  | resting hcell hnobody hreturned => exact absurd hprovides (hnobody number)
  | building holder hholder hreturned =>
      obtain rfl := (hholder number).mp hprovides
      exact ⟨rfl, fun other => (hholder other).mp, hreturned⟩

theorem Kept.of_resting (hkept : Kept journal target cell) (hcell : cell ≠ some .building) :
    (∀ number, ¬ journal.Provides target number) ∧
      Returned (journal.builds target) (cell.bind OnceCell.value?) := by
  cases hkept with
  | resting _ hnobody hreturned => exact ⟨hnobody, hreturned⟩
  | building => exact absurd rfl hcell

theorem Kept.returned (hkept : Kept journal target cell) :
    ∃ built, Returned (journal.builds target) built := by
  cases hkept with
  | resting _ _ hreturned => exact ⟨_, hreturned⟩
  | building _ _ hreturned => exact ⟨_, hreturned⟩

theorem Kept.others (hkept : Kept journal target cell)
    (hgains : journal.Gains journal' number happening)
    (hown : cell ≠ some .building ∨ journal.Provides target number) :
    ∀ other, other ≠ number → ¬ journal'.Provides target other := by
  intro other hne
  rw [hgains.provides_of_ne hne]
  rcases hown with hcell | hprovides
  · exact (hkept.of_resting hcell).1 other
  · exact fun hother => hne ((hkept.of_provides hprovides).2.1 other hother)

theorem Kept.held (hothers : ∀ other, other ≠ number → ¬ journal.Provides target other)
    (hprovides : journal.Provides target number)
    (hreturned : Returned (journal.builds target) (journal.reply number)) :
    Kept journal target (some .building) := by
  refine .building number (fun other => ⟨fun hother => ?_, ?_⟩) hreturned
  · by_contra hne
    exact hothers other hne hother
  · rintro rfl
    exact hprovides

theorem Kept.released (hothers : ∀ other, other ≠ number → ¬ journal.Provides target other)
    (hprovides : ¬ journal.Provides target number) (hcell : cell ≠ some .building)
    (hreturned : Returned (journal.builds target) (cell.bind OnceCell.value?)) :
    Kept journal target cell := by
  refine .resting hcell (fun other hother => ?_) hreturned
  rcases eq_or_ne other number with rfl | hne
  · exact hprovides hother
  · exact hothers other hne hother

/-- Every step of an attempt keeps the cell and the builds in accord. -/
theorem Kept.advance {made : List Happening} (hkept : Kept journal target cell)
    (hgains : journal.Gains journal' number happening)
    (hown : journal.own number = .started (.buildCache target) :: made)
    (hadvance : Advance target made happening) (hturns : Turns target cell happening cell') :
    Kept journal' target cell' := by
  have hown' : journal'.own number = .started (.buildCache target) :: (made ++ [happening]) := by
    rw [hgains.own_self, hown]
    rfl
  have hbuilds := hgains.builds (Journal.doing?_of_own hown')
  have hsame : happening.build? = none → journal'.builds target = journal.builds target :=
    fun hsilent => by rw [hbuilds, hsilent]; exact List.append_nil _
  have hbefore := Journal.provides_iff hown
  have hlater := Journal.provides_iff hown'
  have hreply : journal.reply number = reply (.started (.buildCache target) :: made) :=
    congrArg reply hown
  have hreply' : journal'.reply number =
      reply (.started (.buildCache target) :: (made ++ [happening])) :=
    congrArg reply hown'
  cases hadvance with
  | find cache =>
      obtain ⟨rfl, rfl⟩ : cell = some (.ready cache) ∧ cell' = some (.ready cache) := by
        cases hturns with
        | found => exact ⟨rfl, rfl⟩
        | aside hcache => exact absurd rfl hcache
      have hreturned := (hkept.of_resting (by simp)).2
      exact .released (hkept.others hgains (Or.inl (by simp))) (by simp [hlater, Held]) (by simp)
        (hsame rfl ▸ hreturned)
  | claim =>
      obtain ⟨rfl, rfl⟩ : cell = some .vacant ∧ cell' = some .building := by
        cases hturns with
        | granted => exact ⟨rfl, rfl⟩
        | aside hcache => exact absurd rfl hcache
      have hreturned := (hkept.of_resting (by simp)).2
      refine .held (hkept.others hgains (Or.inl (by simp))) (hlater.mpr (by simp [Held])) ?_
      rw [hsame rfl, hreply']
      exact hreturned
  | look shape => exact hkept.aside hgains (by simp) (Or.inr rfl) hturns
  | tell shape => exact hkept.aside hgains (by simp) (Or.inr rfl) hturns
  | hear shape result =>
      have hprovides := hbefore.mpr (by simp [Held, preamble])
      obtain ⟨rfl, _, hreturned⟩ := hkept.of_provides hprovides
      obtain rfl : cell' = some .building := by
        cases hturns with
        | aside => rfl
      rw [hreply] at hreturned
      refine .held (hkept.others hgains (Or.inr hprovides))
        (hlater.mpr (by simp [Held, preamble])) ?_
      rw [hbuilds, hreply']
      cases result <;> exact hreturned.concat _
  | store shape cache =>
      have hprovides := hbefore.mpr (by simp [Held, preamble])
      obtain ⟨rfl, _, hreturned⟩ := hkept.of_provides hprovides
      obtain rfl : cell' = some (.ready cache) := by
        cases hturns with
        | filled => rfl
        | aside hcache => exact absurd rfl hcache
      rw [hreply] at hreturned
      refine .released (hkept.others hgains (Or.inr hprovides))
        (fun hheld => (hlater.mp hheld).2.2 cache (by simp)) (by simp) ?_
      rw [hsame rfl]
      exact hreturned
  | drop shape failure =>
      have hprovides := hbefore.mpr (by simp [Held, preamble])
      obtain ⟨rfl, _, hreturned⟩ := hkept.of_provides hprovides
      obtain rfl : cell' = some .vacant := by
        cases hturns with
        | abandoned => rfl
        | aside hcache => exact absurd rfl hcache
      rw [hreply] at hreturned
      refine .released (hkept.others hgains (Or.inr hprovides))
        (fun hheld => (hlater.mp hheld).2.1 (by simp)) (by simp) ?_
      rw [hsame rfl]
      exact hreturned

theorem Advance.cache_of_ne {place : Ref .context} {made : List Happening}
    (hadvance : Advance place made happening) (hplace : place ≠ target) :
    happening.cache? ≠ some target := by
  cases hadvance <;> simp [hplace]

end

end Context

/-- The cell of a context and the builds of its cache are in accord in every run. -/
theorem Runs.kept {history : History} {world : World} {flows : Nat → Flow}
    (hrun : Runs {} history world flows) (target : Ref .context) :
    Context.Kept (.ofHistory history) target (world.cacheOf? target) := by
  refine hrun.grows (fun history world =>
    Context.Kept (.ofHistory history) target (world.cacheOf? target)) ?_ ?_
  · refine .resting (by simp [World.cacheOf?, World.contextAt?]) ?_ returned_nil
    rintro number ⟨story, hown, _⟩
    cases hown
  · intro history world flows later flows' happening index number hrun hnext hafter hgains hkept
    have hturns : Context.Turns target _ _ _ := Context.turns_of_after hafter
    by_cases huncached : happening.Uncached
    · have hcache : happening.cache? ≠ some target := by
        rw [huncached.1]
        simp
      exact hkept.aside hgains hcache (Or.inr huncached.2) hturns
    · obtain ⟨place, made, hown, hadvance⟩ := hnext.advances_attempt hgains huncached
      rcases eq_or_ne place target with rfl | hplace
      · exact hkept.advance hgains hown hadvance hturns
      · have hdoing : (Journal.ofHistory (history ++ [(index, happening)])).doing? number =
            some (.buildCache place) := by
          rw [Journal.doing?, hgains.own_self, hown]
          rfl
        refine hkept.aside hgains (hadvance.cache_of_ne hplace) (Or.inl ?_) hturns
        rw [hdoing]
        simpa using hplace

end CoreEngines
