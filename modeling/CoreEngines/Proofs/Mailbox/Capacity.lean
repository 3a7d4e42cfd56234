import CoreEngines.Proofs.Mailbox.Delivery

/-!
Capacity of a mailbox.  The slots of a queue are told by its length and by whether it was ever
emptied, whatever has led there; and so is which messages a handler cannot deliver.
-/

namespace CoreEngines

open Mailbox

/-- A mailbox changes only by the accesses to it. -/
theorem World.After.mailboxAt? {world later : World} {happening : Happening}
    {target : Ref .mailbox} {mailbox mailbox' : Mailbox} (hafter : world.After happening later)
    (hbefore : world.mailboxAt? target = some mailbox)
    (hlater : later.mailboxAt? target = some mailbox') :
    mailbox' = mailbox ∨ ∃ access answer, happening = .acted (.mailbox target access) answer ∧
      mailbox' = (mailbox.access access).2 := by
  have hsame : later = world → mailbox' = mailbox := by
    rintro rfl
    exact Option.some.inj (hlater.symm.trans hbefore)
  cases happening with
  | acted action answer =>
      by_cases hplace : action.mailbox? = some target
      · cases action with
        | mailbox place access =>
            obtain rfl : place = target := Option.some.inj hplace
            obtain ⟨found, hfound, _, hchanged⟩ := World.perform?_mailbox hafter
            obtain rfl : found = mailbox := Option.some.inj (hfound.symm.trans hbefore)
            exact Or.inr ⟨access, answer, rfl, Option.some.inj (hlater.symm.trans hchanged)⟩
        | _ => cases hplace
      · rcases World.perform?_mailboxAt? hafter hplace with hkept | ⟨hnone, _⟩
        · rw [hkept, hbefore] at hlater
          exact Or.inl (Option.some.inj hlater).symm
        · rw [hnone] at hbefore
          cases hbefore
  | _ => exact Or.inl (hsame hafter)

namespace Mailbox

variable {target : Ref .mailbox}

theorem Hold.settled_of_access? {hold hold' : Hold} {access : Access} {answer : access.Answer}
    (haccess : hold.access? access answer = some hold')
    (hvisit : access = .slots ∨ ∃ message, access = .offer message) : hold = .settled := by
  rcases hvisit with rfl | ⟨message, rfl⟩ <;> cases hold <;> first | rfl | cases haccess

namespace Visit

/-- A visit is made by an access. -/
theorem access_of_of? {happening : Happening} {visit : Visit}
    (hof : of? target happening = some visit) :
    ∃ access answer, happening = .acted (.mailbox target access) answer ∧
      access.visit? answer = some visit := by
  cases happening with
  | acted action answer =>
      cases action with
      | mailbox place access =>
          simp only [of?, Option.ite_none_right_eq_some] at hof
          obtain ⟨rfl, hvisit⟩ := hof
          exact ⟨access, answer, rfl, hvisit⟩
      | _ => cases hof
  | _ => cases hof

theorem of?_sized {happening : Happening} {slots : Nat}
    (hof : of? target happening = some (.sized slots)) :
    happening = .acted (.mailbox target .slots) slots := by
  obtain ⟨access, answer, rfl, hvisit⟩ := access_of_of? hof
  cases access with
  | slots => cases hvisit; rfl
  | _ => cases hvisit

theorem of?_offered {happening : Happening} {message : Message} {accepted : Bool}
    (hof : of? target happening = some (.offered message accepted)) :
    ∃ answer, happening = .acted (.mailbox target (.offer message)) answer := by
  obtain ⟨access, answer, rfl, hvisit⟩ := access_of_of? hof
  cases access with
  | offer message => cases hvisit; exact ⟨answer, rfl⟩
  | _ => cases hvisit

end Visit

theorem reserve_le_base (mailbox : Mailbox) (visits : List Visit) :
    mailbox.reserve ≤ mailbox.base visits := by
  rw [base]
  split
  · exact Nat.le_refl _
  · rw [Slots.replenished]
    split <;> omega

/-- How the slots of a mailbox stand after a run.  The chain of doublings begins with the reserve,
and begins again with the reserve rounded up once a drain has taken messages out. -/
structure Grows (target : Ref .mailbox) (mailbox : Mailbox) (machine : Machine)
    (history : History) : Prop where
  /-- While no section is open, the slots are the first of the chain that hold the queue. -/
  suit : .queue target ∉ machine.world.held →
    Slots.Suit (mailbox.base (visits target (history.map Prod.snd))) mailbox.queued mailbox.slots
  /-- So are those that a section reads off, -/
  sized : ∀ {index move machine' slots},
    machine.move? index move = some (machine', .acted (.mailbox target .slots) slots) →
      Slots.Suit (mailbox.base (visits target (history.map Prod.snd))) mailbox.queued slots
  /-- and these are the capacity that is returned. -/
  capacity : ∀ {number story slots},
    (Journal.ofHistory history).own number = .started (.capacity target) :: story →
      .finished (.capacity target) (.ok slots) ∈ story →
        .acted (.mailbox target .slots) slots ∈ story
  /-- A message from a handler is dropped if the length is one of the chain, and only then, -/
  offers : ∀ {index move machine' message answer},
    machine.move? index move = some (machine', .acted (.mailbox target (.offer message)) answer) →
      (answer = none ↔
        Slots.Full (mailbox.base (visits target (history.map Prod.snd))) mailbox.queued)
  /-- so never below the reserve. -/
  reserved : ∀ {index move machine' message answer},
    machine.move? index move = some (machine', .acted (.mailbox target (.offer message)) answer) →
      mailbox.queued < mailbox.reserve → answer.isSome
  /-- Whoever pushes from a handler has made one such offer when it returns, -/
  offered : ∀ {number story message result},
    (Journal.ofHistory history).own number =
        .started (.pushFromInterrupt target message) :: story →
      .finished (.pushFromInterrupt target message) (.ok result) ∈ story →
        ∃ answer, .acted (.mailbox target (.offer message)) answer ∈ story
  /-- and changes the slots at no step. -/
  kept : ∀ {index move machine' happening mailbox' operation rest below},
    machine.flow index = ⟨operation, rest⟩ :: below → operation.fromInterrupt →
      machine.move? index move = some (machine', happening) →
        machine'.world.mailboxAt? target = some mailbox' → mailbox'.slots = mailbox.slots
  /-- Nothing ever changes the reserve. -/
  reserve : ∀ {index move machine' happening mailbox'},
    machine.move? index move = some (machine', happening) →
      machine'.world.mailboxAt? target = some mailbox' → mailbox'.reserve = mailbox.reserve

section
variable {count : Nat} {moves : List (Nat × Move)} {machine machine' : Machine}
  {history : History} {mailbox : Mailbox} {index : Nat} {move : Move}

/-- A section that reads off the slots or offers a message finds the mailbox settled. -/
theorem settled_of_move? {access : Access} {answer : access.Answer}
    (hrun : (Machine.idle {} count).run? moves = some (machine, history))
    (hmailbox : machine.world.mailboxAt? target = some mailbox)
    (hmove : machine.move? index move = some (machine', .acted (.mailbox target access) answer))
    (hvisit : access = .slots ∨ ∃ message, access = .offer message) :
    Hold.settled.Fits mailbox (visits target (history.map Prod.snd)) := by
  have hruns := Machine.runs_of_run? hrun
  obtain ⟨flow, hmoves, _⟩ := Machine.move?_moves hmove
  obtain ⟨number, below, operation, steps, _, _, _, hstate, ⟨hnext, _⟩⟩ :=
    hruns.allows (sections_obeyed target) (upkeep_upholds target) hmoves rfl
  obtain ⟨hold, hnext⟩ := Option.isSome_iff_exists.mp hnext
  simp only [Hold.next?, if_pos] at hnext
  have hupkeep := (hruns.account (sections_obeyed target) (upkeep_upholds target)).2
  have hfits := hupkeep.busy mailbox hmailbox number
  rw [holding, hstate, Option.elim_some, Hold.settled_of_access? hnext hvisit] at hfits
  exact hfits

theorem sized_of_capacity {journal : Journal} {flows : Nat → Flow} {number slots : Nat}
    {story : List Happening} (haccount : (sections target).Account journal flows)
    (hown : journal.own number = .started (.capacity target) :: story)
    (hreturned : .finished (.capacity target) (.ok slots) ∈ story) :
    .acted (.mailbox target .slots) slots ∈ story := by
  have hvisited : visits target story = [.sized slots] :=
    (dealings_of_own haccount hown).returned rfl slots hreturned
  have hsized : .sized slots ∈ visits target story := by simp [hvisited]
  obtain ⟨happening, hhappening, hof⟩ := List.mem_filterMap.mp hsized
  exact Visit.of?_sized hof ▸ hhappening

theorem offered_of_pushFromInterrupt {journal : Journal} {flows : Nat → Flow} {number : Nat}
    {message : Message} {result : Unit} {story : List Happening}
    (haccount : (sections target).Account journal flows)
    (hown : journal.own number = .started (.pushFromInterrupt target message) :: story)
    (hreturned : .finished (.pushFromInterrupt target message) (.ok result) ∈ story) :
    ∃ answer, .acted (.mailbox target (.offer message)) answer ∈ story := by
  obtain ⟨accepted, hvisited⟩ := (dealings_of_own haccount hown).returned rfl result hreturned
  have hoffered : .offered message accepted ∈ visits target story := by simp [hvisited]
  obtain ⟨happening, hhappening, hof⟩ := List.mem_filterMap.mp hoffered
  obtain ⟨answer, rfl⟩ := Visit.of?_offered hof
  exact ⟨answer, hhappening⟩

theorem offer_none_iff {message : Message} {answer : Option Nat}
    (hrun : (Machine.idle {} count).run? moves = some (machine, history))
    (hmailbox : machine.world.mailboxAt? target = some mailbox)
    (hmove : machine.move? index move =
      some (machine', .acted (.mailbox target (.offer message)) answer)) :
    answer = none ↔
      Slots.Full (mailbox.base (visits target (history.map Prod.snd))) mailbox.queued := by
  obtain ⟨hpublished, _, hroomy⟩ := settled_of_move? hrun hmailbox hmove (Or.inr ⟨message, rfl⟩)
  obtain ⟨found, hfound, rfl, _⟩ := World.perform?_mailbox (Machine.perform?_of_move? hmove)
  obtain rfl : found = mailbox := Option.some.inj (hfound.symm.trans hmailbox)
  rw [hpublished, hroomy.full_iff]
  by_cases hfree : found.queue.size < found.slots
  · simp [Mailbox.access, hfree]
  · simpa [Mailbox.access, hfree] using Nat.le_of_not_lt hfree

/-- No step of a push from a handler changes the slots. -/
theorem slots_of_fromInterrupt {happening : Happening} {mailbox' : Mailbox}
    {operation : Operation} {rest : Program operation.Reply} {below : Flow}
    (hrun : (Machine.idle {} count).run? moves = some (machine, history))
    (hmailbox : machine.world.mailboxAt? target = some mailbox)
    (hflow : machine.flow index = ⟨operation, rest⟩ :: below)
    (hinterrupt : operation.fromInterrupt)
    (hmove : machine.move? index move = some (machine', happening))
    (hlater : machine'.world.mailboxAt? target = some mailbox') :
    mailbox'.slots = mailbox.slots := by
  obtain ⟨flow, hmoves, _⟩ := Machine.move?_moves hmove
  rcases hmoves.after.mailboxAt? hmailbox hlater with rfl | ⟨access, answer, rfl, rfl⟩
  · rfl
  · obtain ⟨number, _, found, steps, _, _, ⟨_, _, hfound⟩, _, _, _, hgets⟩ :=
      (Machine.runs_of_run? hrun).allows (sections_obeyed target) (upkeep_upholds target)
        hmoves rfl
    rw [hflow] at hfound
    cases hfound
    rw [Discipline.after, (sections_foldl target _ steps).1] at hgets
    have hresizes := hgets hinterrupt
    exact access_slots (by simpa [Happening.resizes] using hresizes)

/-- The slots are told by the length alone, in every run of any number of flows. -/
theorem grows_of_run? (hrun : (Machine.idle {} count).run? moves = some (machine, history))
    (hmailbox : machine.world.mailboxAt? target = some mailbox) :
    Grows target mailbox machine history := by
  obtain ⟨haccount, hupkeep⟩ :=
    (Machine.runs_of_run? hrun).account (sections_obeyed target) (upkeep_upholds target)
  refine ⟨?_, ?_, sized_of_capacity haccount, offer_none_iff hrun hmailbox, ?_,
    offered_of_pushFromInterrupt haccount, slots_of_fromInterrupt hrun hmailbox, ?_⟩
  · intro hfree
    obtain ⟨hpublished, _, hroomy⟩ := hupkeep.free mailbox hmailbox hfree
    rw [hpublished]
    exact hroomy
  · intro index move machine' slots hmove
    obtain ⟨hpublished, _, hroomy⟩ := settled_of_move? hrun hmailbox hmove (Or.inl rfl)
    obtain ⟨found, hfound, rfl, _⟩ := World.perform?_mailbox (Machine.perform?_of_move? hmove)
    obtain rfl : found = mailbox := Option.some.inj (hfound.symm.trans hmailbox)
    rw [hpublished]
    exact hroomy
  · intro index move machine' message answer hmove hbelow
    have hbase := reserve_le_base mailbox (visits target (history.map Prod.snd))
    have hfull := Slots.not_full_of_lt (Nat.lt_of_lt_of_le hbelow hbase)
    rw [← offer_none_iff hrun hmailbox hmove] at hfull
    exact Option.isSome_iff_ne_none.mpr hfull
  · intro index move machine' happening mailbox' hmove hlater
    obtain ⟨flow, hmoves, _⟩ := Machine.move?_moves hmove
    rcases hmoves.after.mailboxAt? hmailbox hlater with rfl | ⟨access, answer, _, rfl⟩
    · rfl
    · exact World.mailbox_access_reserve mailbox access

end

open Schedule

/-- Two handlers push into a mailbox with one slot, then a push makes room. -/
def dropThenGrowth : List (Nat × Move) :=
  inFlow 0 (along (.makeMailbox 1) 1 ++
    along (.pushFromInterrupt ⟨0⟩ (.notification .irqRaise 1)) 4 ++
    along (.pushFromInterrupt ⟨0⟩ (.notification .irqRaise 2)) 4 ++
    around (.push ⟨0⟩ (.notification .timeoutEvent 3)) 0 4 0)

theorem grows_dropThenGrowth : ∃ machine history mailbox,
    (Machine.idle {} 1).run? dropThenGrowth = some (machine, history) ∧
      machine.world.mailboxAt? ⟨0⟩ = some mailbox ∧ mailbox.slots = 4 ∧
        refused (visits ⟨0⟩ (history.map Prod.snd)) = [.notification .irqRaise 2] ∧
          Grows ⟨0⟩ mailbox machine history := by
  have hsome : ((Machine.idle {} 1).run? dropThenGrowth).isSome := by rfl
  obtain ⟨⟨machine, history⟩, hrun⟩ := Option.isSome_iff_exists.mp hsome
  have hrefused : (((Machine.idle {} 1).run? dropThenGrowth).map fun outcome =>
      refused (visits ⟨0⟩ (outcome.2.map Prod.snd))) = some [.notification .irqRaise 2] := by rfl
  have hmailbox : (((Machine.idle {} 1).run? dropThenGrowth).bind fun outcome =>
      outcome.1.world.mailboxAt? ⟨0⟩).isSome := by rfl
  have hslots : (((Machine.idle {} 1).run? dropThenGrowth).bind fun outcome =>
      outcome.1.world.mailboxAt? ⟨0⟩).map (·.slots) = some 4 := by rfl
  rw [hrun] at hrefused hmailbox hslots
  obtain ⟨mailbox, hmailbox⟩ := Option.isSome_iff_exists.mp hmailbox
  rw [hmailbox] at hslots
  exact ⟨machine, history, mailbox, hrun, hmailbox, Option.some.inj hslots,
    Option.some.inj hrefused, grows_of_run? hrun hmailbox⟩

end Mailbox

end CoreEngines
