import CoreEngines.Proofs.Mailbox.Growth
import CoreEngines.Proofs.Mailbox.Sections
import CoreEngines.Proofs.Permanence

/-!
The upkeep of a mailbox.  At most one operation is inside a locked section, and the mailbox is as
the section has left it so far; while the lock is free it is as a whole section leaves it.  What
came in and what went out is told by the visits of all sections so far.
-/

namespace CoreEngines.Mailbox

def Published (mailbox : Mailbox) : Prop :=
  mailbox.queued = mailbox.queue.size

/-- Every message that was refused is counted, in a word that wraps around. -/
def Counted (mailbox : Mailbox) (visits : List Visit) : Prop :=
  mailbox.dropped = .ofNat (refused visits).length

/-- The slots that the queue began with, or began with again after it was first emptied. -/
def base (mailbox : Mailbox) (visits : List Visit) : Nat :=
  if taken visits = [] then mailbox.reserve else Slots.replenished mailbox.reserve

/-- The slots are the first of their chain that hold the queue. -/
def Roomy (mailbox : Mailbox) (visits : List Visit) : Prop :=
  Slots.Suit (mailbox.base visits) mailbox.queue.size mailbox.slots

/-- What went out and what is still there came in, in this order. -/
def InOrder (mailbox : Mailbox) (visits : List Visit) : Prop :=
  taken visits ++ mailbox.queue.toList = accepted visits

/-- How a section that has come so far leaves the mailbox. -/
def Hold.Fits (mailbox : Mailbox) (visits : List Visit) : Hold → Prop
  | away => True
  | settled => mailbox.Published ∧ mailbox.Counted visits ∧ mailbox.Roomy visits
  | measured length => mailbox.queue.size = length ∧
      mailbox.Published ∧ mailbox.Counted visits ∧ mailbox.Roomy visits
  | grown length => mailbox.queue.size = length ∧
      mailbox.Counted visits ∧ mailbox.Roomy visits
  | declined => mailbox.dropped + 1 = .ofNat (refused visits).length ∧
      mailbox.Published ∧ mailbox.Roomy visits
  | emptied => mailbox.queue = #[] ∧ mailbox.Counted visits ∧ taken visits ≠ []
  | restocked => mailbox.queue = #[] ∧ mailbox.Counted visits ∧ mailbox.Roomy visits

section
variable {mailbox : Mailbox} {visits : List Visit}

theorem counted_concat {later : Mailbox} {visit : Visit} (hcounted : mailbox.Counted visits)
    (hdropped : later.dropped = mailbox.dropped) (hvisit : visit.refused? = none) :
    later.Counted (visits ++ [visit]) := by
  rw [Counted, refused_concat, hvisit, hdropped, hcounted]
  simp

theorem roomy_concat {later : Mailbox} {visit : Visit}
    (hsuit : Slots.Suit (mailbox.base visits) later.queue.size later.slots)
    (hreserve : later.reserve = mailbox.reserve) (hvisit : visit.messages = []) :
    later.Roomy (visits ++ [visit]) := by
  rwa [Roomy, base, taken_concat, hvisit, List.append_nil, hreserve]

theorem suit_append (hroomy : mailbox.Roomy visits) (message : Message) :
    Slots.Suit (mailbox.base visits) (mailbox.append message).queue.size
      (mailbox.append message).slots := by
  by_cases hfree : mailbox.queue.size < mailbox.slots
  · simpa [append, hfree] using hroomy.succ hfree
  · simpa [append, hfree] using hroomy.grow (Nat.le_of_not_lt hfree)

/-- Accesses that have their place in a section leave the mailbox as it then says. -/
theorem Hold.Fits.access {hold hold' : Hold} {access : Access}
    (hfits : hold.Fits mailbox visits)
    (haccess : hold.access? access (mailbox.access access).1 = some hold') :
    hold'.Fits (mailbox.access access).2
      (visits ++ (access.visit? (mailbox.access access).1).toList) := by
  generalize hmade : mailbox.access access = made at haccess ⊢
  obtain ⟨answer, later⟩ := made
  have hmakes : hold.Makes access answer hold' := makes_of_access? haccess
  cases hmakes with
  | peek hold queued =>
      cases hmade
      simpa only [Access.visit?, Option.toList_none, List.append_nil] using hfits
  | length length =>
      cases hmade
      simpa only [Access.visit?, Option.toList_none, List.append_nil] using ⟨rfl, hfits⟩
  | slots slots =>
      cases hmade
      obtain ⟨hpublished, hcounted, hroomy⟩ := hfits
      exact ⟨hpublished, counted_concat hcounted rfl rfl, roomy_concat hroomy rfl rfl⟩
  | append message length =>
      cases hmade
      obtain ⟨_, hcounted, hroomy⟩ := hfits
      exact ⟨Array.size_push message, counted_concat hcounted rfl rfl,
        roomy_concat (suit_append hroomy message) rfl rfl⟩
  | offer message length =>
      simp only [Mailbox.access] at hmade
      split at hmade <;> cases hmade
      obtain ⟨_, hcounted, hroomy⟩ := hfits
      exact ⟨Array.size_push message, counted_concat hcounted rfl rfl,
        roomy_concat (suit_append hroomy message) rfl rfl⟩
  | decline message =>
      simp only [Mailbox.access] at hmade
      split at hmade <;> cases hmade
      obtain ⟨hpublished, hcounted, hroomy⟩ := hfits
      refine ⟨?_, hpublished, roomy_concat hroomy rfl rfl⟩
      rw [hcounted]
      simp [Access.visit?, refused_concat, Visit.refused?]
  | publish length =>
      cases hmade
      obtain ⟨hsize, hcounted, hroomy⟩ := hfits
      simpa only [Access.visit?, Option.toList_none, List.append_nil] using
        ⟨hsize.symm, hcounted, hroomy⟩
  | clear =>
      cases hmade
      obtain ⟨hempty, hcounted, hroomy⟩ := hfits
      have hsize : 0 = mailbox.queue.size := by rw [hempty]; rfl
      simpa only [Access.visit?, Option.toList_none, List.append_nil] using
        ⟨hsize, hcounted, hroomy⟩
  | discard =>
      cases hmade
      obtain ⟨hdropped, hpublished, hroomy⟩ := hfits
      simpa only [Access.visit?, Option.toList_none, List.append_nil] using
        ⟨hpublished, hdropped, hroomy⟩
  | detach messages hlength =>
      cases hmade
      obtain ⟨hsize, _, hcounted, _⟩ := hfits
      have hqueue : mailbox.queue ≠ #[] := fun hempty =>
        hlength (by rw [← hsize, hempty]; rfl)
      refine ⟨rfl, counted_concat hcounted rfl rfl, ?_⟩
      simp [Access.visit?, taken_concat, Visit.messages, hqueue]
  | replenish =>
      simp only [Mailbox.access] at hmade
      split at hmade <;> cases hmade
      obtain ⟨hempty, hcounted, htaken⟩ := hfits
      simp only [Access.visit?, Option.toList_none, List.append_nil]
      refine ⟨hempty, hcounted, ?_⟩
      rw [Roomy, base, if_neg htaken]
      exact Slots.suit_base (by simp [hempty])

/-- Nothing comes in or goes out but through the visits. -/
theorem InOrder.access (horder : mailbox.InOrder visits) (access : Access) :
    (mailbox.access access).2.InOrder
      (visits ++ (access.visit? (mailbox.access access).1).toList) := by
  rw [InOrder] at horder
  cases access with
  | append message =>
      simp [InOrder, Mailbox.access, append, Access.visit?, taken_concat, accepted_concat,
        Visit.messages, Visit.accepted?, ← horder]
  | offer message =>
      by_cases hfree : mailbox.queue.size < mailbox.slots <;>
        simp [InOrder, Mailbox.access, append, hfree, Access.visit?, taken_concat,
          accepted_concat, Visit.messages, Visit.accepted?, ← horder]
  | detach =>
      simp [InOrder, Mailbox.access, Access.visit?, taken_concat, accepted_concat,
        Visit.messages, Visit.accepted?, ← horder]
  | slots =>
      simp [InOrder, Mailbox.access, Access.visit?, taken_concat, accepted_concat,
        Visit.messages, Visit.accepted?, ← horder]
  | replenish =>
      by_cases hroom : Slots.allocatable (Slots.replenished mailbox.reserve) <;>
        simpa [InOrder, Mailbox.access, hroom, Access.visit?] using horder
  | _ => simpa [InOrder, Mailbox.access, Access.visit?] using horder

theorem access_slots {access : Access} (haccess : access.resizes = false) :
    (mailbox.access access).2.slots = mailbox.slots := by
  cases access with
  | offer message =>
      by_cases hfree : mailbox.queue.size < mailbox.slots <;>
        simp [Mailbox.access, append, hfree]
  | append message => cases haccess
  | detach => cases haccess
  | replenish => cases haccess
  | _ => rfl

end

/-- The state of a mailbox and of its lock, with all who are inside a section. -/
structure Upkeep (target : Ref .mailbox) (visits : List Visit) (world : World)
    (holds : Nat → Hold) : Prop where
  nodup : world.held.Nodup
  inside : ∀ number, holds number ≠ .away → .queue target ∈ world.held
  alone : ∀ number other, holds number ≠ .away → holds other ≠ .away → number = other
  allocatable : ∀ mailbox, world.mailboxAt? target = some mailbox →
    Slots.allocatable mailbox.reserve
  inOrder : ∀ mailbox, world.mailboxAt? target = some mailbox → mailbox.InOrder visits
  free : ∀ mailbox, world.mailboxAt? target = some mailbox → .queue target ∉ world.held →
    Hold.settled.Fits mailbox visits
  busy : ∀ mailbox, world.mailboxAt? target = some mailbox → ∀ number,
    (holds number).Fits mailbox visits
  absent : world.mailboxAt? target = none → visits = [] ∧
    ∀ number, holds number = .away ∨ holds number = .settled

namespace Upkeep

variable {target : Ref .mailbox} {visits : List Visit} {world later : World}
  {holds : Nat → Hold} {number : Nat}

theorem settled_new (reserve : Nat) : Hold.settled.Fits (.new reserve) [] :=
  ⟨rfl, rfl, Slots.suit_base (Nat.zero_le reserve)⟩

theorem idle : Upkeep target [] {} fun _ => .away where
  nodup := List.nodup_nil
  inside _ hhold := absurd rfl hhold
  alone _ _ hhold := absurd rfl hhold
  allocatable _ hmailbox := by simp [World.mailboxAt?] at hmailbox
  inOrder _ hmailbox := by simp [World.mailboxAt?] at hmailbox
  free _ hmailbox := by simp [World.mailboxAt?] at hmailbox
  busy _ hmailbox := by simp [World.mailboxAt?] at hmailbox
  absent _ := ⟨rfl, fun _ => Or.inl rfl⟩

/-- Whatever spares the mailbox and its lock does no harm. -/
theorem aside {action : Action} {answer : action.Answer}
    (hupkeep : Upkeep target visits world holds)
    (hperform : world.perform? action = some (answer, later))
    (hmailbox : action.mailbox? ≠ some target) (hlock : action.lock? ≠ some (.queue target)) :
    Upkeep target visits later holds := by
  have hheld := World.perform?_mem_held hperform hlock
  have hnodup := World.perform?_held_nodup hperform hupkeep.nodup
  rcases World.perform?_mailboxAt? hperform hmailbox with hsame | ⟨hnone, reserve, hroom, hnew⟩
  · exact
      { nodup := hnodup
        inside := fun number hhold => hheld.mpr (hupkeep.inside number hhold)
        alone := hupkeep.alone
        allocatable := fun mailbox hat => hupkeep.allocatable mailbox (hsame ▸ hat)
        inOrder := fun mailbox hat => hupkeep.inOrder mailbox (hsame ▸ hat)
        free := fun mailbox hat hfree =>
          hupkeep.free mailbox (hsame ▸ hat) fun hmem => hfree (hheld.mpr hmem)
        busy := fun mailbox hat => hupkeep.busy mailbox (hsame ▸ hat)
        absent := fun hat => hupkeep.absent (hsame ▸ hat) }
  · obtain ⟨rfl, hholds⟩ := hupkeep.absent hnone
    have hmade : ∀ mailbox, later.mailboxAt? target = some mailbox → mailbox = .new reserve := by
      intro mailbox hat
      rw [hnew] at hat
      exact (Option.some.inj hat).symm
    refine ⟨hnodup, fun number hhold => hheld.mpr (hupkeep.inside number hhold), hupkeep.alone,
      ?_, ?_, ?_, ?_, ?_⟩
    · rintro mailbox hat
      obtain rfl := hmade mailbox hat
      exact hroom
    · rintro mailbox hat
      obtain rfl := hmade mailbox hat
      rfl
    · rintro mailbox hat _
      obtain rfl := hmade mailbox hat
      exact settled_new reserve
    · rintro mailbox hat number
      obtain rfl := hmade mailbox hat
      rcases hholds number with hhold | hhold <;> rw [hhold]
      · trivial
      · exact settled_new reserve
    · intro hat
      rw [hnew] at hat
      cases hat

theorem others (hupkeep : Upkeep target visits world holds) (hhold : holds number ≠ .away) :
    ∀ other ≠ number, holds other = .away := by
  intro other hother
  by_contra haway
  exact hother (hupkeep.alone other number haway hhold)

/-- An access that has its place in a section. -/
theorem access {access : Access} {answer : access.Answer} {hold : Hold}
    (hupkeep : Upkeep target visits world holds)
    (hperform : world.perform? (.mailbox target access) = some (answer, later))
    (haccess : (holds number).access? access answer = some hold) :
    Upkeep target (visits ++ (access.visit? answer).toList) later
      (Function.update holds number hold) := by
  obtain ⟨mailbox, hat, rfl, hlater⟩ := World.perform?_mailbox hperform
  have hheld : .queue target ∈ later.held ↔ .queue target ∈ world.held :=
    World.perform?_mem_held hperform (by simp [Action.lock?])
  have hmade : ∀ found, later.mailboxAt? target = some found →
      found = (mailbox.access access).2 := fun found hfound => by
    rw [hlater] at hfound
    exact (Option.some.inj hfound).symm
  have hstay : ∀ other, Function.update holds number hold other ≠ .away ↔ holds other ≠ .away := by
    intro other
    by_cases hother : other = number
    · subst hother
      rw [Function.update_self]
      exact not_congr (Hold.access?_away_iff haccess)
    · rw [Function.update_of_ne hother]
  -- Those who are away can only peek, which leaves everything as it is.
  have hpeek : holds number = .away → access = .peek := fun haway =>
    Hold.access?_of_away (haway ▸ haccess)
  refine ⟨World.perform?_held_nodup hperform hupkeep.nodup, ?_, ?_, ?_, ?_, ?_, ?_, ?_⟩
  · intro other hhold
    exact hheld.mpr (hupkeep.inside other ((hstay other).mp hhold))
  · intro one other hone hother
    exact hupkeep.alone one other ((hstay one).mp hone) ((hstay other).mp hother)
  · intro found hfound
    rw [hmade found hfound, World.mailbox_access_reserve]
    exact hupkeep.allocatable mailbox hat
  · intro found hfound
    rw [hmade found hfound]
    exact (hupkeep.inOrder mailbox hat).access access
  · intro found hfound hfree
    have haway : holds number = .away := by
      by_contra hhold
      exact hfree (hheld.mpr (hupkeep.inside number hhold))
    have hsettled := hupkeep.free mailbox hat fun hmem => hfree (hheld.mpr hmem)
    rw [hmade found hfound]
    obtain rfl := hpeek haway
    simpa only [Mailbox.access, Access.visit?, Option.toList_none, List.append_nil] using hsettled
  · intro found hfound other
    rw [hmade found hfound]
    by_cases hother : other = number
    · subst hother
      rw [Function.update_self]
      exact (hupkeep.busy mailbox hat other).access haccess
    · rw [Function.update_of_ne hother]
      by_cases haway : holds number = .away
      · obtain rfl := hpeek haway
        simpa only [Mailbox.access, Access.visit?, Option.toList_none, List.append_nil] using
          hupkeep.busy mailbox hat other
      · rw [hupkeep.others haway other hother]
        trivial
  · intro hnone
    rw [hlater] at hnone
    cases hnone

theorem acquire {answer : Unit} (hupkeep : Upkeep target visits world holds)
    (hperform : world.perform? (.acquire (.queue target)) = some (answer, later)) :
    Upkeep target visits later (Function.update holds number .settled) := by
  have hnodup := World.perform?_held_nodup hperform hupkeep.nodup
  obtain ⟨hfree, rfl⟩ := World.perform?_acquire hperform
  have haway : ∀ other, holds other = .away := fun other => by
    by_contra hhold
    exact hfree (hupkeep.inside other hhold)
  have honly : ∀ other, Function.update holds number .settled other ≠ .away → other = number := by
    intro other hhold
    by_contra hother
    rw [Function.update_of_ne hother] at hhold
    exact hhold (haway other)
  refine ⟨hnodup, ?_, ?_, hupkeep.allocatable, hupkeep.inOrder, ?_, ?_, ?_⟩
  · intro other _
    exact List.mem_cons_self
  · intro one other hone hother
    rw [honly one hone, honly other hother]
  · intro mailbox hat hnot
    exact absurd List.mem_cons_self hnot
  · intro mailbox hat other
    by_cases hother : other = number
    · subst hother
      rw [Function.update_self]
      exact hupkeep.free mailbox hat hfree
    · rw [Function.update_of_ne hother, haway other]
      trivial
  · intro hnone
    refine ⟨(hupkeep.absent hnone).1, fun other => ?_⟩
    by_cases hother : other = number
    · subst hother
      exact Or.inr (Function.update_self other _ holds)
    · rw [Function.update_of_ne hother]
      exact Or.inl (haway other)

theorem release {answer : Unit} (hupkeep : Upkeep target visits world holds)
    (hperform : world.perform? (.release (.queue target)) = some (answer, later))
    (hhold : (holds number).next? target (.acted (.release (.queue target)) answer) =
      some .away) : Upkeep target visits later (Function.update holds number .away) := by
  have hnodup := World.perform?_held_nodup hperform hupkeep.nodup
  obtain rfl := World.perform?_release hperform
  have hinside : holds number ≠ .away := by
    intro haway
    simp [haway, Hold.next?] at hhold
  have haway : ∀ other, Function.update holds number .away other = .away := by
    intro other
    by_cases hother : other = number
    · subst hother
      exact Function.update_self other _ holds
    · rw [Function.update_of_ne hother]
      exact hupkeep.others hinside other hother
  refine ⟨hnodup, ?_, ?_, hupkeep.allocatable, hupkeep.inOrder, ?_, ?_, ?_⟩
  · exact fun other hother => absurd (haway other) hother
  · exact fun one other hone => absurd (haway one) hone
  · intro mailbox hat _
    have hfits := hupkeep.busy mailbox hat number
    cases hcase : holds number with
    | settled => exact hcase ▸ hfits
    | measured length => exact (show Hold.Fits _ _ (.measured length) from hcase ▸ hfits).2
    | _ => simp [hcase, Hold.next?] at hhold
  · intro mailbox _ other
    rw [haway other]
    trivial
  · exact fun hnone => ⟨(hupkeep.absent hnone).1, fun other => Or.inl (haway other)⟩

/-- A drain finds what it measured, and gets its slots. -/
theorem presumes {visitor : Visitor} {happening : Happening}
    (hupkeep : Upkeep target visits world holds) (hhold : holds number = visitor.hold)
    (hafter : world.After happening later) : (sections target).Presumes visitor happening := by
  cases happening with
  | acted action answer =>
      cases action with
      | mailbox place access =>
          cases access with
          | replenish =>
              rintro rfl
              obtain ⟨mailbox, hat, rfl, _⟩ := World.perform?_mailbox hafter
              have hroom := Slots.allocatable_replenished (hupkeep.allocatable mailbox hat)
              simp only [Mailbox.access, if_pos hroom]
          | detach =>
              rintro rfl length hmeasured
              obtain ⟨mailbox, hat, rfl, _⟩ := World.perform?_mailbox hafter
              have hfits := hupkeep.busy mailbox hat number
              rw [hhold, hmeasured] at hfits
              exact hfits.1
          | _ => trivial
      | _ => trivial
  | _ => trivial

theorem spared {happening : Happening} (hupkeep : Upkeep target visits world holds)
    (hafter : world.After happening later) (hspares : Spares target happening) :
    Upkeep target visits later holds := by
  cases happening with
  | acted action answer => exact hupkeep.aside hafter hspares.1 hspares.2
  | _ => obtain rfl : later = world := hafter; exact hupkeep

/-- A step that keeps to the sections of the mailbox. -/
theorem step {hold : Hold} {happening : Happening}
    (hupkeep : Upkeep target visits world holds) (hafter : world.After happening later)
    (hnext : (holds number).next? target happening = some hold) :
    Upkeep target (visits ++ (Visit.of? target happening).toList) later
      (Function.update holds number hold) := by
  rcases Hold.next?_cases hnext with ⟨hspares, rfl⟩ | ⟨access, answer, rfl, haccess⟩ | ⟨rfl, rfl⟩ |
    ⟨rfl, rfl⟩
  · rw [Visit.of?_of_spares hspares, Function.update_eq_self]
    simpa only [Option.toList_none, List.append_nil] using hupkeep.spared hafter hspares
  · simpa only [Visit.of?, if_pos] using hupkeep.access hafter haccess
  · simpa only [Visit.of?, Option.toList_none, List.append_nil] using hupkeep.acquire hafter
  · simpa only [Visit.of?, Option.toList_none, List.append_nil] using
      hupkeep.release hafter hnext

end Upkeep

/-- How all operations stand to the queue of a mailbox; who is not running is away. -/
def holding (states : Nat → Option Visitor) (number : Nat) : Hold :=
  (states number).elim .away Visitor.hold

variable {target : Ref .mailbox}

theorem holding_update (states : Nat → Option Visitor) (number : Nat) (state : Option Visitor) :
    holding (Function.update states number state) =
      Function.update (holding states) number (state.elim .away Visitor.hold) := by
  funext other
  by_cases hother : other = number
  · subst hother
    simp [holding]
  · simp [holding, hother]

theorem visits_concat (history : History) (index : Nat) (happening : Happening) :
    visits target ((history ++ [(index, happening)]).map Prod.snd) =
      visits target (history.map Prod.snd) ++ (Visit.of? target happening).toList := by
  cases hvisit : Visit.of? target happening <;> simp [visits, hvisit]

/-- All runs keep up a mailbox. -/
theorem upkeep_upholds (target : Ref .mailbox) :
    (sections target).Upholds {} fun history world states =>
      Upkeep target (visits target (history.map Prod.snd)) world (holding states) where
  idle := Upkeep.idle
  start := by
    intro history world states index number operation hupkeep hnone
    have haway : holding states number = .away := by simp [holding, hnone]
    rw [holding_update, visits_concat]
    change Upkeep target _ world (Function.update (holding states) number .away)
    rw [← haway, Function.update_eq_self]
    simpa [Visit.of?] using hupkeep
  step := by
    intro history world states later state happening index number hupkeep hstate _ hafter
    have hhold : holding states number = state.hold := by simp [holding, hstate]
    refine ⟨hupkeep.presumes hhold hafter, fun hallows => ?_⟩
    obtain ⟨hold, hnext⟩ := Option.isSome_iff_exists.mp hallows.1
    rw [holding_update, visits_concat]
    have hstep := hupkeep.step hafter (hhold ▸ hnext)
    simpa [sections, hnext] using hstep
  finish := by
    intro history world states state index number operation result hupkeep hstate hreturns
    have haway : holding states number = .away := by simp [holding, hstate, hreturns.2.1]
    rw [holding_update, visits_concat]
    change Upkeep target _ world (Function.update (holding states) number .away)
    rw [← haway, Function.update_eq_self]
    simpa [Visit.of?] using hupkeep

end CoreEngines.Mailbox
