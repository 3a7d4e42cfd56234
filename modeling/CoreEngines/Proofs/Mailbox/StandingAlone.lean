import CoreEngines.Proofs.Mailbox.Agreement
import CoreEngines.Proofs.Mailbox.Arrivals
import CoreEngines.Proofs.Mailbox.Capacity

/-!
Standing alone.  In every run a mailbox is what it would be if it stood alone and were served with
the requests in the order in which they have reached its queue.
-/

namespace CoreEngines

namespace Mailbox

/-- An operation has come so far with the mailbox as the one tells that stands alone. -/
def Visitor.Agrees (target : Ref .mailbox) (visitor : Visitor) (mailbox alone : Mailbox) : Prop :=
  visitor.hold.Agrees (Request.of? target visitor.operation) mailbox alone visitor.visits

/-- A mailbox and the one that has served alone the requests so far. -/
structure MatchesAlone (target : Ref .mailbox) (requests : List Request) (world : World)
    (states : Nat → Option Visitor) : Prop where
  absent : world.mailboxAt? target = none → requests = []
  readsAlike : ∀ mailbox, world.mailboxAt? target = some mailbox →
    mailbox.ReadsAlike (aloneWith mailbox.reserve requests)
  free : ∀ mailbox, world.mailboxAt? target = some mailbox → .queue target ∉ world.held →
    mailbox = aloneWith mailbox.reserve requests
  busy : ∀ mailbox, world.mailboxAt? target = some mailbox → ∀ number visitor,
    states number = some visitor →
      visitor.Agrees target mailbox (aloneWith mailbox.reserve requests)

namespace MatchesAlone

variable {target : Ref .mailbox} {requests : List Request} {world later : World}
  {states : Nat → Option Visitor} {number : Nat} {visitor : Visitor} {visits : List Visit}

theorem idle : MatchesAlone target [] {} fun _ => none where
  absent _ := rfl
  readsAlike _ hmailbox := by simp [World.mailboxAt?] at hmailbox
  free _ hmailbox := by simp [World.mailboxAt?] at hmailbox
  busy _ hmailbox := by simp [World.mailboxAt?] at hmailbox

theorem visitor_update {state : Option Visitor} {mailbox alone : Mailbox}
    (hothers : ∀ other visitor, other ≠ number → states other = some visitor →
      visitor.Agrees target mailbox alone)
    (hnumber : ∀ visitor, state = some visitor → visitor.Agrees target mailbox alone) :
    ∀ other visitor, Function.update states number state other = some visitor →
      visitor.Agrees target mailbox alone := by
  intro other visitor hvisitor
  by_cases hother : other = number
  · subst hother
    rw [Function.update_self] at hvisitor
    exact hnumber visitor hvisitor
  · rw [Function.update_of_ne hother] at hvisitor
    exact hothers other visitor hother hvisitor

theorem update {state : Option Visitor} (hmatches : MatchesAlone target requests world states)
    (hstate : ∀ mailbox, world.mailboxAt? target = some mailbox → ∀ visitor,
      state = some visitor → visitor.Agrees target mailbox (aloneWith mailbox.reserve requests)) :
    MatchesAlone target requests world (Function.update states number state) where
  absent := hmatches.absent
  readsAlike := hmatches.readsAlike
  free := hmatches.free
  busy mailbox hmailbox := visitor_update (fun other visitor _ =>
    hmatches.busy mailbox hmailbox other visitor) (hstate mailbox hmailbox)

theorem aside {action : Action} {answer : action.Answer}
    (hmatches : MatchesAlone target requests world states)
    (hupkeep : Upkeep target visits world (holding states))
    (hperform : world.perform? action = some (answer, later))
    (hmailbox : action.mailbox? ≠ some target) (hlock : action.lock? ≠ some (.queue target)) :
    MatchesAlone target requests later states := by
  have hheld := World.perform?_mem_held hperform hlock
  rcases World.perform?_mailboxAt? hperform hmailbox with hsame | ⟨hnone, reserve, hroom, hnew⟩
  · exact
      { absent := fun hat => hmatches.absent (hsame ▸ hat)
        readsAlike := fun mailbox hat => hmatches.readsAlike mailbox (hsame ▸ hat)
        free := fun mailbox hat hfree =>
          hmatches.free mailbox (hsame ▸ hat) fun hmem => hfree (hheld.mpr hmem)
        busy := fun mailbox hat => hmatches.busy mailbox (hsame ▸ hat) }
  · obtain rfl := hmatches.absent hnone
    have hmade : ∀ mailbox, later.mailboxAt? target = some mailbox →
        mailbox = aloneWith mailbox.reserve [] := by
      intro mailbox hat
      rw [hnew] at hat
      cases hat
      rfl
    refine ⟨fun _ => rfl, ?_, fun mailbox hat _ => hmade mailbox hat, ?_⟩
    · intro mailbox hat
      rw [← hmade mailbox hat]
      exact .refl mailbox
    · intro mailbox hat other visitor hvisitor
      have hhold : holding states other = visitor.hold := by simp [holding, hvisitor]
      rcases (hupkeep.absent hnone).2 other with haway | hsettled
      · rw [Visitor.Agrees, ← hhold, haway]
        trivial
      · rw [Visitor.Agrees, ← hhold, hsettled]
        exact hmade mailbox hat

theorem spared {happening : Happening} (hmatches : MatchesAlone target requests world states)
    (hupkeep : Upkeep target visits world (holding states)) (hafter : world.After happening later)
    (hspares : Spares target happening) : MatchesAlone target requests later states := by
  cases happening with
  | acted action answer => exact hmatches.aside hupkeep hafter hspares.1 hspares.2
  | _ => obtain rfl : later = world := hafter; exact hmatches

theorem acquire {answer : Unit} (hmatches : MatchesAlone target requests world states)
    (hperform : world.perform? (.acquire (.queue target)) = some (answer, later))
    (hhold : visitor.hold = .settled) :
    MatchesAlone target requests later (Function.update states number (some visitor)) := by
  obtain ⟨hfree, rfl⟩ := World.perform?_acquire hperform
  have hmatches' : MatchesAlone target requests { world with held := .queue target :: world.held }
      states :=
    ⟨hmatches.absent, hmatches.readsAlike, fun _ _ hnot => absurd List.mem_cons_self hnot,
      hmatches.busy⟩
  apply hmatches'.update
  rintro mailbox hat _ ⟨⟩
  rw [Visitor.Agrees, hhold]
  exact hmatches.free mailbox hat hfree

theorem release {answer : Unit} {visitor' : Visitor}
    (hmatches : MatchesAlone target requests world states) (hstate : states number = some visitor)
    (hperform : world.perform? (.release (.queue target)) = some (answer, later))
    (hnext : visitor.hold.next? target (.acted (.release (.queue target)) answer) = some .away)
    (hhold : visitor'.hold = .away) :
    MatchesAlone target requests later (Function.update states number (some visitor')) := by
  obtain rfl := World.perform?_release hperform
  have hmatches' : MatchesAlone target requests
      { world with held := world.held.erase (.queue target) } states := by
    refine ⟨hmatches.absent, hmatches.readsAlike, fun mailbox hat _ => ?_, hmatches.busy⟩
    have hagrees := hmatches.busy mailbox hat number visitor hstate
    rw [Visitor.Agrees] at hagrees
    cases hcase : visitor.hold with
    | settled => exact (show Hold.Agrees _ _ _ _ .settled from hcase ▸ hagrees)
    | measured length =>
        exact (show Hold.Agrees _ _ _ _ (.measured length) from hcase ▸ hagrees).1
    | _ => simp [hcase, Hold.next?] at hnext
  apply hmatches'.update
  rintro mailbox hat _ ⟨⟩
  rw [Visitor.Agrees, hhold]
  trivial

/-- An access of an operation that has its place in its section, and is one that its request
makes. -/
theorem access {access : Access} {answer : access.Answer} {hold : Hold} (failed : Bool)
    (hmatches : MatchesAlone target requests world states)
    (hupkeep : Upkeep target visits world (holding states)) (hstate : states number = some visitor)
    (hperform : world.perform? (.mailbox target access) = some (answer, later))
    (haccess : visitor.hold.access? access answer = some hold)
    (hallots : visitor.operation.allots target access)
    (hlooks : access.looks → visitor.visits = []) :
    MatchesAlone target
      (requests ++ if access.reaches answer then (Request.of? target visitor.operation).toList
        else [])
      later
      (Function.update states number
        (some ⟨visitor.operation, hold, visitor.visits ++ (access.visit? answer).toList,
          failed⟩)) := by
  obtain ⟨mailbox, hat, rfl, hlater⟩ := World.perform?_mailbox hperform
  have hhold : holding states number = visitor.hold := by simp [holding, hstate]
  have hheld : .queue target ∈ later.held ↔ .queue target ∈ world.held :=
    World.perform?_mem_held hperform (by simp [Action.lock?])
  have hreadsAlike := hmatches.readsAlike mailbox hat
  have horderly := orderly_aloneWith requests (hupkeep.allocatable mailbox hat)
  have hkeeps := (hmatches.busy mailbox hat number visitor hstate).access hreadsAlike horderly
    hallots hlooks haccess
  rw [← aloneWith_append] at hkeeps
  have hmade : ∀ found, later.mailboxAt? target = some found →
      found = (mailbox.access access).2 := fun found hfound => by
    rw [hlater] at hfound
    exact (Option.some.inj hfound).symm
  -- Without the lock nothing can be done but peek, and this changes neither mailbox.
  have hpeek : visitor.hold = .away → (mailbox.access access).2 = mailbox ∧
      aloneWith mailbox.reserve (requests ++ if access.reaches (mailbox.access access).1 then
        (Request.of? target visitor.operation).toList else []) =
          aloneWith mailbox.reserve requests := by
    intro haway
    obtain rfl := Hold.access?_of_away (haway ▸ haccess)
    exact ⟨rfl, aloneWith_append.trans (serving_of_peek hreadsAlike horderly hallots)⟩
  refine ⟨?_, ?_, ?_, ?_⟩
  · intro hnone
    rw [hlater] at hnone
    cases hnone
  · intro found hfound
    rw [hmade found hfound, World.mailbox_access_reserve]
    exact hkeeps.readsAlike
  · intro found hfound hfree
    have haway : visitor.hold = .away := by
      by_contra hinside
      exact hfree (hheld.mpr (hupkeep.inside number (hhold ▸ hinside)))
    obtain ⟨hsame, hserved⟩ := hpeek haway
    rw [hmade found hfound, World.mailbox_access_reserve, hserved, hsame]
    exact hmatches.free mailbox hat fun hmem => hfree (hheld.mpr hmem)
  · intro found hfound
    rw [hmade found hfound, World.mailbox_access_reserve]
    apply visitor_update
    · intro other guest hother hguest
      by_cases haway : visitor.hold = .away
      · obtain ⟨hsame, hserved⟩ := hpeek haway
        rw [hserved, hsame]
        exact hmatches.busy mailbox hat other guest hguest
      · have hguestHold : holding states other = guest.hold := by simp [holding, hguest]
        rw [Visitor.Agrees, ← hguestHold, hupkeep.others (hhold ▸ haway) other hother]
        trivial
    · rintro _ ⟨⟩
      exact hkeeps.agrees

/-- A step of an operation that makes its accesses as its request is served. -/
theorem step {happening : Happening} (hmatches : MatchesAlone target requests world states)
    (hupkeep : Upkeep target visits world (holding states)) (hstate : states number = some visitor)
    (hafter : world.After happening later) (hallows : (sections target).Allows visitor happening)
    (hreacher : ∀ access answer, happening = .acted (.mailbox target access) answer →
      visitor.operation.allots target access ∧ (access.looks → visitor.visits = [])) :
    MatchesAlone target
      (requests ++ if happening.reaches target then (Request.of? target visitor.operation).toList
        else [])
      later
      (Function.update states number (some ((sections target).observe visitor happening))) := by
  obtain ⟨hold, hnext⟩ := Option.isSome_iff_exists.mp hallows.1
  rcases Hold.next?_cases hnext with ⟨hspares, rfl⟩ | ⟨access, answer, rfl, haccess⟩ | ⟨rfl, rfl⟩ |
    ⟨rfl, rfl⟩
  · rw [not_reaches_of_spares hspares, if_neg Bool.false_ne_true, List.append_nil]
    have hspared := hmatches.spared hupkeep hafter hspares
    apply hspared.update
    rintro mailbox hat _ ⟨⟩
    have hagrees := hspared.busy mailbox hat number visitor hstate
    simpa [Visitor.Agrees, sections, hnext, Visit.of?_of_spares hspares] using hagrees
  · obtain ⟨hallots, hlooks⟩ := hreacher access answer rfl
    have hstep := hmatches.access visitor.failed hupkeep hstate hafter haccess hallots hlooks
    simpa [sections, hnext, Happening.reaches, Visit.of?, Happening.fails] using hstep
  · simpa [Happening.reaches] using hmatches.acquire hafter (by simp [sections, hnext])
  · simpa [Happening.reaches] using hmatches.release hstate hafter hnext (by simp [sections, hnext])

end MatchesAlone

/-- An operation stands with its request as its visits tell. -/
theorem reacher_of_visitor {target : Ref .mailbox} {journal : Journal} {flows : Nat → Flow}
    {number : Nat} {visitor : Visitor} (haccount : (sections target).Account journal flows)
    (hstate : (sections target).standing journal number = some visitor) :
    ∃ story reached, journal.own number = .started visitor.operation :: story ∧
      visitor.visits = visits target story ∧
        (reaching target).standing journal number =
          some ⟨visitor.operation, visitor.visits, reached⟩ := by
  obtain ⟨operation, story, hown, hsteps, _, rfl⟩ := haccount.story_of_standing hstate
  obtain ⟨hoperation, hvisits, _⟩ :=
    sections_foldl target ((sections target).start operation) story
  refine ⟨story, story.any (·.reaches target), ?_, hvisits, ?_⟩
  · rw [hown, Discipline.after, hoperation]
    rfl
  · rw [Discipline.standing_of_own hown hsteps, Discipline.after, Discipline.after, hoperation,
      hvisits, reaching_foldl]
    rfl

/-- What an operation finds out with an access to a mailbox, next to the one that stands alone. -/
structure Finds (target : Ref .mailbox) (visitor : Visitor) (found alone : Mailbox)
    (access : Access) (answer : access.Answer) : Prop where
  told : (found.access access).1 = answer
  place : (visitor.hold.access? access answer).isSome
  agrees : visitor.Agrees target found alone
  readsAlike : found.ReadsAlike alone
  orderly : alone.Orderly
  looks : access.looks → visitor.visits = []

namespace Finds

variable {target : Ref .mailbox} {visitor : Visitor} {found alone : Mailbox} {access : Access}

theorem slots {answer : Nat} (hfinds : Finds target visitor found alone .slots answer) :
    answer = alone.slots := by
  obtain ⟨hold, haccess⟩ := Option.isSome_iff_exists.mp hfinds.place
  have hagrees := hfinds.agrees
  rw [Visitor.Agrees, Hold.settled_of_access? haccess (Or.inl rfl)] at hagrees
  obtain rfl : found = alone := hagrees
  exact hfinds.told.symm

theorem takes {answer : access.Answer} (hfinds : Finds target visitor found alone access answer)
    (hempties : (Request.of? target visitor.operation).any Request.empties)
    (hreaches : access.reaches answer) : visitor.visits = drained alone.queue := by
  obtain ⟨hold, haccess⟩ := Option.isSome_iff_exists.mp hfinds.place
  obtain rfl := hfinds.told
  exact hfinds.agrees.takes hfinds.readsAlike hfinds.orderly hempties hfinds.looks haccess hreaches

end Finds

end Mailbox

open Mailbox

namespace Runs

variable {world : World} {history : History} {flows : Nat → Flow} {target : Ref .mailbox}
  {number : Nat}

/-- In every run a mailbox is as it would be if it stood alone. -/
theorem matchesAlone (hrun : Runs {} history world flows) (target : Ref .mailbox) :
    MatchesAlone target ((Journal.ofHistory history).arrived target) world
      ((sections target).standing (.ofHistory history)) := by
  apply hrun.grows fun history world =>
    MatchesAlone target ((Journal.ofHistory history).arrived target) world
      ((sections target).standing (.ofHistory history))
  · exact MatchesAlone.idle
  · intro history world flows later flows' happening index number hpast hnext hafter hgains hmatches
    obtain ⟨haccount, hupkeep⟩ := hpast.account (sections_obeyed target) (upkeep_upholds target)
    obtain ⟨hlater, _⟩ := hnext.account (sections_obeyed target) (upkeep_upholds target)
    obtain ⟨haccepts, hstanding⟩ := hlater.gained hgains
    rw [hstanding]
    by_cases hstep : happening.isStep
    · obtain ⟨visitor, hstate, hallows⟩ := (Discipline.accepts_iff hstep).mp haccepts
      obtain ⟨story, reached, hown, _, hreacher⟩ := reacher_of_visitor haccount hstate
      rw [hgains.arrived hown, hstate, Discipline.track_some hstep]
      refine hmatches.step hupkeep hstate hafter hallows ?_
      rintro access answer rfl
      obtain ⟨reacher, hsame, hallowed⟩ := ((hnext.reaching target).gained hgains).1
      obtain rfl := Option.some.inj (hsame.symm.trans hreacher)
      obtain ⟨hallots, hlooks, _⟩ := hallowed rfl
      exact ⟨hallots, hlooks⟩
    · -- Whoever starts or returns is away.
      have hsame : later = world ∧ happening.reaches target = false := by
        cases happening <;> first | exact absurd rfl hstep | exact ⟨hafter, rfl⟩
      obtain ⟨rfl, hreaches⟩ := hsame
      rw [hgains.arrived_of_not hreaches]
      apply hmatches.update
      intro mailbox _ visitor hvisitor
      cases happening with
      | started operation => cases hvisitor; trivial
      | finished operation result => cases hvisitor
      | _ => exact absurd rfl hstep

/-- For every access to a mailbox there is the moment at which it was made, and what it finds out
is told by the requests that had arrived by then. -/
theorem finds {made rest : List Happening} {access : Access} {answer : access.Answer}
    {mailbox : Mailbox} (hrun : Runs {} history world flows)
    (hown : (Journal.ofHistory history).own number =
      made ++ .acted (.mailbox target access) answer :: rest)
    (hmailbox : world.mailboxAt? target = some mailbox) :
    ∃ before index after visitor steps found,
      history = before ++ (index, .acted (.mailbox target access) answer) :: after ∧
        (Journal.ofHistory before).Gains
          (.ofHistory (before ++ [(index, .acted (.mailbox target access) answer)])) number
          (.acted (.mailbox target access) answer) ∧
        made = .started visitor.operation :: steps ∧ visitor.visits = visits target steps ∧
          Finds target visitor found
            (aloneWith mailbox.reserve ((Journal.ofHistory before).arrived target)) access
            answer := by
  obtain ⟨before, index, after, rfl, hmade, hgains⟩ := hrun.moment_of_own hown
  obtain ⟨past, pastFlows, later, laterFlows, hpast, hnext, hafter, houtlasts⟩ := hrun.turn
  obtain ⟨haccount, hupkeep⟩ := hpast.account (sections_obeyed target) (upkeep_upholds target)
  obtain ⟨hlater, _⟩ := hnext.account (sections_obeyed target) (upkeep_upholds target)
  obtain ⟨visitor, hstate, hallows⟩ := (hlater.gained hgains).1
  obtain ⟨steps, reached, hown', hvisits, hreacher⟩ := reacher_of_visitor haccount hstate
  obtain ⟨reacher, hsame, hallowed⟩ := ((hnext.reaching target).gained hgains).1
  obtain rfl := Option.some.inj (hsame.symm.trans hreacher)
  obtain ⟨found, hat, rfl, hchanged⟩ := World.perform?_mailbox hafter
  have hreserve : found.reserve = mailbox.reserve := by
    have hkept : world.reserveOf? target = some found.reserve :=
      houtlasts.reserves (by simp [World.reserveOf?, hchanged, World.mailbox_access_reserve])
    rw [World.reserveOf?, hmailbox] at hkept
    exact (Option.some.inj hkept).symm
  have hmatches := hpast.matchesAlone target
  refine ⟨before, index, after, visitor, steps, found, rfl, hgains, hmade.symm.trans hown', hvisits,
    rfl, ?_, ?_, ?_, ?_, (hallowed rfl).looks⟩
  · simpa only [Hold.next?, if_pos] using hallows.1
  · exact hreserve ▸ hmatches.busy found hat number visitor hstate
  · exact hreserve ▸ hmatches.readsAlike found hat
  · exact hreserve ▸ orderly_aloneWith _ (hupkeep.allocatable found hat)

end Runs

end CoreEngines
