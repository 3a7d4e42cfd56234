import CoreEngines.Proofs.Creation.Lossless
import CoreEngines.Proofs.Identity.Cycle
import CoreEngines.Proofs.Mailbox.Upkeep

/-!
Provision of mailboxes.  A creator asks for a mailbox after it has claimed a serial and before it
touches anything else.  If there is none to be had, that is all that it has done; once it has one,
nothing is left that could fail.
-/

namespace CoreEngines

open Program

/-- Whether a step can belong to a claim on a counter. -/
def Happening.OnCounter (counter : Ref .counter) : Happening → Prop
  | .acted (.counter target _) _ => target = counter
  | .called (.claimSerial target _) => target = counter
  | .chose _ => True
  | _ => False

/-- Whether a step can belong to a creator that gets no mailbox. -/
def Happening.Spends (registry : Ref .registry) (counter : Ref .counter) : Happening → Prop
  | .acted (.registry target .shape) _ => target = registry
  | .acted (.newMailbox _) made => made = none
  | happening => happening.OnCounter counter

theorem Happening.OnCounter.spends {happening : Happening} {counter : Ref .counter}
    (hcounter : happening.OnCounter counter) (registry : Ref .registry) :
    happening.Spends registry counter := by
  unfold Spends
  split
  · exact hcounter.elim
  · exact hcounter.elim
  · exact hcounter

namespace SerialCounter

variable {counter : Ref .counter}

theorem claim_onCounter (counter : Ref .counter) :
    (claim counter).Within (Happening.OnCounter counter) :=
  .bind (.perform fun _ => rfl) fun _ => .invoke rfl

theorem code_onCounter (procedure : Procedure)
    (hcalled : (Happening.called procedure).OnCounter counter) :
    procedure.code.Within (Happening.OnCounter counter) := by
  cases procedure with
  | claimSerial target seen =>
      obtain rfl : target = counter := hcalled
      refine .bind (.chance fun _ => trivial) fun spurious => ?_
      cases spurious with
      | true => exact claim_onCounter target
      | false =>
          refine .bind (.perform fun _ => rfl) fun outcome => ?_
          cases outcome with
          | none => exact .pure seen
          | some found => exact .invoke rfl
  | _ => exact hcalled.elim

theorem onCounter_of_claim {story : List Happening} {rest : Program UInt64}
    (hreaches : (claim counter).Reaches story rest) :
    ∀ happening ∈ story, happening.OnCounter counter :=
  ((claim_onCounter counter).of_reaches (fun _ => code_onCounter _) hreaches).2

end SerialCounter

namespace Registry

variable {registry : Ref .registry} {story : List Happening} {rest : Program (Ref .thread)}

/-- What a creator does with the mailbox that it got. -/
def enrolling (registry : Ref .registry) (id : ThreadId) (mailbox : Ref .mailbox) :
    Program (Ref .thread) := do
  let thread : Ref .thread ← perform (.newThread id mailbox)
  locked (.roster registry) do
    let count : Nat ← perform (.registry registry (.enroll thread))
    perform (.registry registry (.publish count))
  report (.threadCreated id)
  return thread

/-- How far a creator has come, and what is left of it. -/
inductive Provision (registry : Ref .registry) : List Happening → Program (Ref .thread) → Prop
  | opening : Provision registry [] (create registry)
  | claiming {shape : Shape} {story : List Happening} {left : Program UInt64}
      {rest : Program (Ref .thread)}
      (hclaim : (SerialCounter.claim shape.counter).Reaches story left)
      (hrest : ∀ result, rest ≠ .done result) :
      Provision registry (.acted (.registry registry .shape) shape :: story) rest
  | refused {shape : Shape} {story : List Happening} {serial : UInt64}
      (hclaim : (SerialCounter.claim shape.counter).Reaches story (.done (.ok serial))) :
      Provision registry (.acted (.registry registry .shape) shape ::
        (story ++ [.acted (.newMailbox shape.reserve) none])) (fail .capacityOverflow)
  | granted {shape : Shape} {story late : List Happening} {serial : UInt64}
      {mailbox : Ref .mailbox} {rest : Program (Ref .thread)}
      (hclaim : (SerialCounter.claim shape.counter).Reaches story (.done (.ok serial)))
      (hrest : (enrolling registry ⟨shape.core, serial⟩ mailbox).Reaches late rest) :
      Provision registry (.acted (.registry registry .shape) shape ::
        (story ++ .acted (.newMailbox shape.reserve) (some mailbox) :: late)) rest

theorem provision_of_reaches (hreaches : (create registry).Reaches story rest) :
    Provision registry story rest := by
  cases story with
  | nil =>
      rw [reaches_nil.mp hreaches]
      exact .opening
  | cons happening story =>
      obtain ⟨shape, rfl, hnext⟩ := reaches_perform_bind hreaches
      rcases reaches_bind hnext with ⟨left, hclaim, rfl⟩ | ⟨claim, serial, late, hclaim, hlate, rfl⟩
      · refine .claiming hclaim ?_
        -- A claim that is over has returned a serial, and then the mailbox is to be asked for.
        cases SerialCounter.attempt_of_claim hclaim with
        | pending _ hleft =>
            intro result
            cases left with
            | done outcome => exact absurd rfl (hleft outcome)
            | _ => exact nofun
        | settled => exact nofun
      · cases late with
        | nil =>
            rw [reaches_nil.mp hlate, List.append_nil]
            exact .claiming hclaim nofun
        | cons asked late =>
            rw [Mailbox.make, bind_bind] at hlate
            obtain ⟨made, rfl, hmade⟩ := reaches_perform_bind hlate
            cases made with
            | none =>
                obtain ⟨rfl, rfl⟩ := reaches_done.mp hmade
                exact .refused hclaim
            | some mailbox => exact .granted hclaim hmade

/-- Once a creator has a mailbox it returns its thread. -/
theorem ok_of_enrolling {id : ThreadId} {mailbox : Ref .mailbox}
    {result : Except Failure (Ref .thread)}
    (hreaches : (enrolling registry id mailbox).Reaches story (.done result)) :
    ∃ thread, result = .ok thread := by
  have hstraight : (enrolling registry id mailbox).Straight := by
    refine .bind (.perform nofun) fun thread => .bind (.locked ?_ nofun nofun) fun _ =>
      .bind (.report nofun) fun _ => .pure _
    exact .bind (.perform nofun) fun _ => .perform nofun
  obtain ⟨thread, _, rfl, hlate⟩ := (tells_perform_bind _ _ _ _).mp (hstraight.tells hreaches)
  rcases (tells_bind _ _ _ _).mp hlate with
    ⟨_, _, _, _, ⟨_, rfl, rfl, rfl⟩, rfl⟩ | ⟨failure, hfails, _⟩
  · exact ⟨thread, rfl⟩
  · obtain ⟨_, hbody, _⟩ := (tells_locked _ _ _ _).mp hfails
    obtain ⟨_, _, _, hpublish⟩ := (tells_perform_bind _ _ _ _).mp hbody
    obtain ⟨_, _, hok⟩ := (tells_perform _ _ _).mp hpublish
    cases hok

/-- Whoever returns has claimed a serial. -/
theorem Provision.claimed {result : Except Failure (Ref .thread)}
    (hprovision : Provision registry story (.done result)) :
    ∃ (shape : Shape) (serial : UInt64), .acted (.registry registry .shape) shape ∈ story ∧
      serial ∈ serialsIn shape.counter story := by
  have hserial : ∀ {shape : Shape} {claim late : List Happening} {serial : UInt64},
      (SerialCounter.claim shape.counter).Reaches claim (.done (.ok serial)) →
        serial ∈ serialsIn shape.counter
          (.acted (.registry registry .shape) shape :: (claim ++ late)) := by
    intro shape claim late serial hclaim
    cases SerialCounter.attempt_of_claim hclaim with
    | pending _ hrest => exact absurd rfl (hrest _)
    | settled hserials =>
        have hmem : serial ∈ serialsIn shape.counter claim := by simp [hserials]
        rw [serialsIn, List.filterMap_cons_none rfl, List.filterMap_append]
        exact List.mem_append_left _ hmem
  generalize hdone : Program.done result = rest at hprovision
  cases hprovision with
  | opening => cases hdone
  | claiming _ hrest => exact absurd hdone.symm (hrest result)
  | @refused shape _ serial hclaim =>
      exact ⟨shape, serial, List.mem_cons_self, hserial hclaim⟩
  | @granted shape _ _ serial _ _ hclaim =>
      exact ⟨shape, serial, List.mem_cons_self, hserial hclaim⟩

section
variable {shape : Shape}

/-- A creator that can get no mailbox touches nothing but the counter, and fails when it has claimed
one serial. -/
theorem Provision.createsNone (hprovision : Provision registry story rest)
    (hshape : ∀ seen, .acted (.registry registry .shape) seen ∈ story → seen = shape)
    (hnone : ∀ mailbox, .acted (.newMailbox shape.reserve) (some mailbox) ∉ story) :
    (∀ happening ∈ story, happening.Spends registry shape.counter) ∧
      ∀ result, rest = .done result → result = .error .capacityOverflow ∧
        ∃ serial, serialsIn shape.counter story = [serial] := by
  cases hprovision with
  | opening => exact ⟨by simp, nofun⟩
  | @claiming seen claim _ _ hclaim hrest =>
      obtain rfl := hshape seen List.mem_cons_self
      refine ⟨List.forall_mem_cons.mpr ⟨rfl, fun happening hmem => ?_⟩,
        fun result hresult => absurd hresult (hrest result)⟩
      exact (SerialCounter.onCounter_of_claim hclaim happening hmem).spends registry
  | @refused seen claim serial hclaim =>
      obtain rfl := hshape seen List.mem_cons_self
      refine ⟨List.forall_mem_cons.mpr ⟨rfl, List.forall_mem_append.mpr ⟨fun happening hmem => ?_,
        List.forall_mem_singleton.mpr rfl⟩⟩, ?_⟩
      · exact (SerialCounter.onCounter_of_claim hclaim happening hmem).spends registry
      · rintro _ ⟨rfl⟩
        cases SerialCounter.attempt_of_claim hclaim with
        | pending _ hrest => exact absurd rfl (hrest _)
        | settled hserials =>
            refine ⟨rfl, serial, ?_⟩
            rw [serialsIn, List.filterMap_cons_none rfl, List.filterMap_append]
            exact congrArg (· ++ []) hserials
  | @granted seen claim late serial mailbox =>
      obtain rfl := hshape seen List.mem_cons_self
      exact absurd (by simp) (hnone mailbox)

/-- A creator that is not refused a mailbox does not fail. -/
theorem Provision.createsFreely {result : Except Failure (Ref .thread)}
    (hprovision : Provision registry story (.done result))
    (hshape : ∀ seen, .acted (.registry registry .shape) seen ∈ story → seen = shape)
    (hgiven : .acted (.newMailbox shape.reserve) none ∉ story) :
    ∃ thread, result = .ok thread := by
  generalize hdone : Program.done result = rest at hprovision
  cases hprovision with
  | opening => cases hdone
  | claiming _ hrest => exact absurd hdone.symm (hrest result)
  | @refused seen =>
      obtain rfl := hshape seen List.mem_cons_self
      exact absurd (by simp) hgiven
  | granted _ hrest => exact ok_of_enrolling (hdone ▸ hrest)

end

end Registry

namespace Runs

variable {history : History} {world : World} {flows : Nat → Flow} {target : Ref .registry}
  {shape : Registry.Shape} {number : Nat} {story : List Happening}

/-- Whether a mailbox can be had is up to its slots alone. -/
theorem allocatable_of_make {reserve : Nat} {made : Option (Ref .mailbox)}
    (hrun : Runs {} history world flows)
    (hmem : .acted (.newMailbox reserve) made ∈ history.map Prod.snd) :
    Slots.allocatable reserve = made.isSome := by
  obtain ⟨⟨index, _⟩, hentry, rfl⟩ := List.mem_map.mp hmem
  obtain ⟨before, after, rfl⟩ := List.append_of_mem hentry
  obtain ⟨_, _, _, _, hafter⟩ := hrun.moment
  cases World.effect_of_perform? hafter with
  | newMailbox hroom => exact hroom
  | noMailbox hroom => exact Bool.eq_false_iff.mpr hroom

theorem not_given {operation : Operation} {reserve : Nat} {mailbox : Ref .mailbox}
    (hrun : Runs {} history world flows) (hroom : Slots.allocatable reserve = false)
    (hown : (Journal.ofHistory history).own number = .started operation :: story) :
    .acted (.newMailbox reserve) (some mailbox) ∉ story := by
  intro hmem
  rw [hrun.allocatable_of_make (hrun.mem_history hown hmem)] at hroom
  cases hroom

theorem shape_of_create {seen : Registry.Shape} (hrun : Runs {} history world flows)
    (hshape : world.registryShape? target = some shape)
    (hown : (Journal.ofHistory history).own number = .started (.create target) :: story)
    (hmem : .acted (.registry target .shape) seen ∈ story) : seen = shape :=
  Option.some.inj ((hrun.bears _ (hrun.mem_history hown hmem)).symm.trans hshape)

section
variable (hrun : Runs {} history world flows) (hshape : world.registryShape? target = some shape)
  (hown : (Journal.ofHistory history).own number = .started (.create target) :: story)
include hrun hshape hown

/-- A creator that can get no mailbox touches nothing but the counter. -/
theorem spends_of_create (hroom : Slots.allocatable shape.reserve = false) :
    ∀ happening ∈ story, happening.isStep → happening.Spends target shape.counter := by
  obtain ⟨steps, rest, hreaches, hpart, hsteps⟩ := hrun.reaches_steps hown
  obtain ⟨hspends, _⟩ := (Registry.provision_of_reaches hreaches).createsNone
    (fun seen hmem => hrun.shape_of_create hshape hown (hpart.mem hmem))
    (fun mailbox hmem => hrun.not_given hroom hown (hpart.mem hmem))
  exact fun happening hmem hstep => hspends happening (hsteps happening hmem hstep)

/-- It fails when it has claimed one serial. -/
theorem overflow_of_create {result : Except Failure (Ref .thread)}
    (hroom : Slots.allocatable shape.reserve = false)
    (hfinished : .finished (.create target) result ∈ story) :
    result = .error .capacityOverflow ∧ ∃ serial, serialsIn shape.counter story = [serial] := by
  obtain ⟨steps, rfl, hreaches⟩ := hrun.reaches_of_finished hown hfinished
  obtain ⟨_, hends⟩ := (Registry.provision_of_reaches hreaches).createsNone
    (fun seen hmem => hrun.shape_of_create hshape hown (List.mem_append_left _ hmem))
    (fun mailbox hmem => hrun.not_given hroom hown (List.mem_append_left _ hmem))
  obtain ⟨rfl, serial, hserials⟩ := hends result rfl
  refine ⟨rfl, serial, ?_⟩
  rw [serialsIn, List.filterMap_append]
  exact congrArg (· ++ []) hserials

/-- A creator that can get a mailbox returns its thread. -/
theorem ok_of_create {result : Except Failure (Ref .thread)}
    (hroom : Slots.allocatable shape.reserve = true)
    (hfinished : .finished (.create target) result ∈ story) : ∃ thread, result = .ok thread := by
  obtain ⟨steps, rfl, hreaches⟩ := hrun.reaches_of_finished hown hfinished
  have hgiven : .acted (.newMailbox shape.reserve) none ∉ steps := by
    intro hmem
    rw [hrun.allocatable_of_make (hrun.mem_history hown (List.mem_append_left _ hmem))] at hroom
    cases hroom
  refine (Registry.provision_of_reaches hreaches).createsFreely (fun seen hmem => ?_) hgiven
  exact hrun.shape_of_create hshape hown (List.mem_append_left _ hmem)

end

section
variable (hrun : Runs {} history world flows) (hshape : world.registryShape? target = some shape)
  (hroom : Slots.allocatable shape.reserve = false)
include hrun hshape hroom

/-- Nothing is ever put on record in a registry whose threads can have no mailbox. -/
theorem enrolledIn_createsNone : enrolledIn target (history.map Prod.snd) = [] := by
  rw [List.eq_nil_iff_forall_not_mem]
  intro thread hthread
  obtain ⟨number, story, hown, henrolled⟩ := Registry.creator_of_enrolled hrun hthread
  obtain ⟨length, henroll⟩ := mem_enrolledIn.mp henrolled
  exact hrun.spends_of_create hshape hown hroom _ henroll rfl

/-- So it stays as it was made. -/
theorem registryAt?_createsNone :
    world.registryAt? target = some (.new shape.core shape.reserve shape.counter) := by
  obtain ⟨registry, hregistry, rfl⟩ := Option.map_eq_some_iff.mp hshape
  have hnone := hrun.enrolledIn_createsNone hshape hroom
  have hroster : registry.roster.toList = [] := by
    rw [← World.ledger_roster hregistry, hrun.roster, hnone]
  have hpending : registry.pending.toList = [] := by
    have htaken := hrun.taken target
    rw [hrun.roster, hnone] at htaken
    have hstaged := (List.append_eq_nil_iff.mp htaken).2
    simpa [World.ledger, hregistry] using hstaged
  have hsilent : (history.map Prod.snd).filterMap (·.published? target) = [] := by
    refine List.filterMap_eq_nil_iff.mpr fun happening hmem => ?_
    rw [Option.eq_none_iff_forall_ne_some]
    intro length hpublished
    obtain rfl := Happening.published?_eq_some.mp hpublished
    obtain ⟨thread, henroll⟩ := hrun.enroll_of_publish hmem
    have hlisted := mem_enrolledIn.mpr ⟨length, henroll⟩
    rw [hnone] at hlisted
    cases hlisted
  have hcount : registry.count = 0 := by
    have htally := hrun.count target
    rw [hsilent, World.tally, hregistry] at htally
    exact htally
  rw [hregistry]
  obtain ⟨core, reserve, counter, count, roster, pending⟩ := registry
  obtain rfl : count = 0 := hcount
  obtain rfl : roster = #[] := Array.toList_eq_nil_iff.mp hroster
  obtain rfl : pending = #[] := Array.toList_eq_nil_iff.mp hpending
  rfl

/-- Whoever looks at it sees it like that. -/
theorem answer_createsNone {access : Registry.Access} {answer : access.Answer}
    (hmem : .acted (.registry target access) answer ∈ history.map Prod.snd) :
    answer = ((Registry.new shape.core shape.reserve shape.counter).access access).1 := by
  obtain ⟨⟨index, _⟩, hentry, rfl⟩ := List.mem_map.mp hmem
  obtain ⟨before, after, rfl⟩ := List.append_of_mem hentry
  obtain ⟨past, _, later, _, hbefore, _, hafter, houtlasts⟩ := hrun.turn
  cases World.effect_of_perform? hafter with
  | @registry _ object _ hobject =>
      have hpast : past.registryShape? target = some object.shape :=
        congrArg (Option.map Registry.shape) hobject
      have hsame := houtlasts.registries ((World.outlasts_after hafter).registries hpast)
      obtain rfl := Option.some.inj (hsame.symm.trans hshape)
      rw [hbefore.registryAt?_createsNone hpast hroom] at hobject
      rw [← Option.some.inj hobject]
      rfl

end

end Runs

end CoreEngines
