import CoreEngines.Proofs.Mailbox.Owners
import CoreEngines.Proofs.Mailbox.StandingAlone

/-!
Independence.  All that can be learnt of a thread's mailbox, by taking messages, by asking for its
capacity or by reading its counters, is what a mailbox of its own would tell that has served the
same requests one after the other.
-/

namespace CoreEngines

namespace Mailbox

/-- A mailbox that behaves as one that stands alone.  The requests on it reach its queue one after
the other, and nothing else has any part in what it tells. -/
structure StandsAlone (target : Ref .mailbox) (mailbox : Mailbox) (machine : Machine)
    (history : History) : Prop where
  /-- Whoever has reached the queue has made a request, and has reached the queue in its locked
  section, or with the look from outside that found nothing. -/
  requested : ∀ number ∈ (Journal.ofHistory history).reachers target,
    ∃ request steps happening rest, (Journal.ofHistory history).own number =
        .started (Request.operation target request) :: (steps ++ happening :: rest) ∧
      happening.reaches target ∧
        (happening = .acted (.mailbox target .peek) (0 : Nat) ∨
          ∃ hold ≠ .away, steps.foldlM (Hold.next? target) .away = some hold)
  /-- Nobody reaches it twice, -/
  once : ((Journal.ofHistory history).reachers target).Nodup
  /-- and whoever has returned has reached it. -/
  reached : ∀ {number request story reply}, (Journal.ofHistory history).own number =
      .started (Request.operation target request) :: story →
    .finished (Request.operation target request) (.ok reply) ∈ story →
      number ∈ (Journal.ofHistory history).reachers target
  /-- To serve requests alone is to run them in the only flow of a machine, one after the other,
  when a mailbox was made with these slots; nothing else starts there. -/
  alone : ∀ requests, ∃ moves world history',
    (Machine.idle {} 1).run? moves = some (⟨world, #[[]]⟩, history') ∧
      (history'.map Prod.snd).filterMap started? =
          .makeMailbox mailbox.reserve :: requests.map (Request.operation ⟨0⟩) ∧
        served? mailbox.reserve requests = some world
  /-- The counters are those of the mailbox that has served alone all requests that have arrived,
  and while the lock is free so is all the rest. -/
  shows : ∃ alone, alone? mailbox.reserve ((Journal.ofHistory history).arrived target) =
      some alone ∧ mailbox.queued = alone.queued ∧ mailbox.dropped = alone.dropped ∧
        (.queue target ∉ machine.world.held → mailbox = alone)
  /-- A drain returns what it would return alone, after those who have arrived before. -/
  drained : ∀ {number story messages},
    (Journal.ofHistory history).own number = .started (.drain target) :: story →
      .finished (.drain target) (.ok messages) ∈ story → ∃ earlier later,
        (Journal.ofHistory history).reachers target = earlier ++ number :: later ∧
          replies? mailbox.reserve ((Journal.ofHistory history).requests target earlier)
            (.drain ⟨0⟩) = some (.ok messages)
  drainedLocked : ∀ {number story messages},
    (Journal.ofHistory history).own number = .started (.drainLocked target) :: story →
      .finished (.drainLocked target) (.ok messages) ∈ story → ∃ earlier later,
        (Journal.ofHistory history).reachers target = earlier ++ number :: later ∧
          replies? mailbox.reserve ((Journal.ofHistory history).requests target earlier)
            (.drainLocked ⟨0⟩) = some (.ok messages)
  /-- The capacity that is returned is the one after those who had arrived when it was read. -/
  capacity : ∀ {number story slots},
    (Journal.ofHistory history).own number = .started (.capacity target) :: story →
      .finished (.capacity target) (.ok slots) ∈ story → ∃ before index after,
        history = before ++ (index, .acted (.mailbox target .slots) slots) :: after ∧
          (Journal.ofHistory before).Gains
            (.ofHistory (before ++ [(index, .acted (.mailbox target .slots) slots)])) number
            (.acted (.mailbox target .slots) slots) ∧
          replies? mailbox.reserve ((Journal.ofHistory before).arrived target)
            (.capacity ⟨0⟩) = some (.ok slots)
  /-- Nothing fails here unless a callback does. -/
  failed : ∀ {number operation story failure}, operation.mailbox? = some target →
    (Journal.ofHistory history).own number = .started operation :: story →
      .finished operation (.error failure) ∈ story →
        ∃ callback cause, .answered callback (.error cause) ∈ story

variable {target : Ref .mailbox}

theorem drained_injective {messages messages' : Array Message}
    (hsame : drained messages = drained messages') : messages = messages' := by
  unfold drained at hsame
  split at hsame <;> split at hsame <;> simp_all

theorem visit?_of_reaches {access : Access} {answer : access.Answer}
    (hreaches : access.reaches answer) : access.visit? answer = none := by
  cases access <;> first | rfl | cases hreaches

theorem request_of_reaches {operation : Operation} {access : Access} {answer : access.Answer}
    (hallots : operation.allots target access) (hreaches : access.reaches answer) :
    ∃ request : Request, operation = request.operation target := by
  cases hrequest : Request.of? target operation with
  | some request => exact ⟨request, Request.of?_eq_some.mp hrequest⟩
  | none =>
      rw [Operation.allots, hrequest] at hallots
      obtain rfl : access = .slots := beq_iff_eq.mp hallots
      cases hreaches

end Mailbox

open Mailbox

namespace Runs

variable {world : World} {history : History} {flows : Nat → Flow} {target : Ref .mailbox}
  {number : Nat}

theorem requested (hrun : Runs {} history world flows)
    (hnumber : number ∈ (Journal.ofHistory history).reachers target) :
    ∃ request steps happening rest, (Journal.ofHistory history).own number =
        .started (Request.operation target request) :: (steps ++ happening :: rest) ∧
      happening.reaches target ∧
        (happening = .acted (.mailbox target .peek) (0 : Nat) ∨
          ∃ hold ≠ .away, steps.foldlM (Hold.next? target) .away = some hold) := by
  obtain ⟨happening, hmem, hreaches⟩ := Journal.mem_reachers.mp hnumber
  obtain ⟨access, answer, rfl, hanswer⟩ := Happening.access_of_reaches hreaches
  obtain ⟨made, rest, hown⟩ := List.append_of_mem hmem
  obtain ⟨operation, steps, rfl, hallots, _⟩ := hrun.before_access hown
  obtain ⟨request, rfl⟩ := request_of_reaches hallots hanswer
  refine ⟨request, steps, _, rest, hown, hreaches, ?_⟩
  obtain ⟨haccount, _⟩ := hrun.account (sections_obeyed target) (upkeep_upholds target)
  have hsections := (dealings_of_own haccount hown).sections
  obtain ⟨later, hlater⟩ := Option.isSome_iff_exists.mp hsections
  obtain ⟨hold, hhold, hrest⟩ := Option.bind_eq_some_iff.mp
    ((List.foldlM_append (m := Option)).symm.trans hlater)
  obtain ⟨next, hnext, _⟩ := Option.bind_eq_some_iff.mp
    ((List.foldlM_cons (m := Option)).symm.trans hrest)
  by_cases haway : hold = .away
  · subst haway
    simp only [Hold.next?, if_pos] at hnext
    obtain rfl := Hold.access?_of_away hnext
    exact Or.inl (by rw [beq_iff_eq.mp hanswer])
  · exact Or.inr ⟨hold, haway, hhold⟩

/-- Whoever takes messages out takes those that the mailbox would hold if it stood alone. -/
theorem drains {operation : Operation} {story : List Happening} {mailbox : Mailbox}
    {messages : Array Message}
    (hrun : Runs {} history world flows) (hmailbox : world.mailboxAt? target = some mailbox)
    (hown : (Journal.ofHistory history).own number = .started operation :: story)
    (hempties : (Request.of? target operation).any Request.empties)
    (hnumber : number ∈ (Journal.ofHistory history).reachers target)
    (hdrained : visits target story = drained messages) :
    ∃ earlier later, (Journal.ofHistory history).reachers target = earlier ++ number :: later ∧
      messages = (aloneWith mailbox.reserve
        ((Journal.ofHistory history).requests target earlier)).queue := by
  obtain ⟨happening, hmem, hreaches⟩ := Journal.mem_reachers.mp hnumber
  obtain ⟨access, answer, rfl, hanswer⟩ := Happening.access_of_reaches hreaches
  obtain ⟨made, rest, hmade⟩ := List.append_of_mem hmem
  have hafter := hrun.visits_of_reached hmade hreaches
  obtain ⟨before, index, after, visitor, steps, found, rfl, hgains, rfl, hvisits, hfinds⟩ :=
    hrun.finds hmade hmailbox
  rw [List.cons_append] at hmade
  cases hown.symm.trans hmade
  refine ⟨(Journal.ofHistory before).reachers target, ?_⟩
  rw [Journal.requests_append]
  obtain ⟨later, hlater⟩ := Journal.reachers_append target
    (before ++ [(index, .acted (.mailbox target access) answer)]) after
  refine ⟨later, ?_, ?_⟩
  · rw [List.append_cons, hlater, hgains.reachers, if_pos hreaches, List.append_assoc]
    rfl
  · apply drained_injective
    rw [← hdrained, ← hfinds.takes hempties hanswer, hvisits, visits, List.filterMap_append,
      List.filterMap_cons_none, ← visits, ← visits, hafter, List.append_nil]
    exact (if_pos rfl).trans (visit?_of_reaches hanswer)

/-- The capacity that is returned is that of the mailbox that stands alone. -/
theorem sizes {story : List Happening} {mailbox : Mailbox} {slots : Nat}
    (hrun : Runs {} history world flows) (hmailbox : world.mailboxAt? target = some mailbox)
    (hown : (Journal.ofHistory history).own number = .started (.capacity target) :: story)
    (hreturned : .finished (.capacity target) (.ok slots) ∈ story) : ∃ before index after,
      history = before ++ (index, .acted (.mailbox target .slots) slots) :: after ∧
        (Journal.ofHistory before).Gains
          (.ofHistory (before ++ [(index, .acted (.mailbox target .slots) slots)])) number
          (.acted (.mailbox target .slots) slots) ∧
        slots = (aloneWith mailbox.reserve ((Journal.ofHistory before).arrived target)).slots := by
  obtain ⟨haccount, _⟩ := hrun.account (sections_obeyed target) (upkeep_upholds target)
  obtain ⟨made, rest, rfl⟩ := List.append_of_mem (sized_of_capacity haccount hown hreturned)
  rw [← List.cons_append] at hown
  obtain ⟨before, index, after, visitor, steps, found, hhistory, hgains, _, _, hfinds⟩ :=
    hrun.finds hown hmailbox
  exact ⟨before, index, after, hhistory, hgains, hfinds.slots⟩

/-- Every mailbox of a run behaves as one that stands alone. -/
theorem standsAlone {mailbox : Mailbox} {machine : Machine}
    (hrun : Runs {} history machine.world flows)
    (hmailbox : machine.world.mailboxAt? target = some mailbox) :
    StandsAlone target mailbox machine history := by
  obtain ⟨haccount, hupkeep⟩ := hrun.account (sections_obeyed target) (upkeep_upholds target)
  have hroom := hupkeep.allocatable mailbox hmailbox
  have hmatches := hrun.matchesAlone target
  have hreached : ∀ {number : Nat} {operation : Operation} {story : List Happening}
      {reply : operation.Reply} (request : Request), operation = request.operation target →
        (Journal.ofHistory history).own number = .started operation :: story →
          .finished operation (.ok reply) ∈ story →
            number ∈ (Journal.ofHistory history).reachers target :=
    fun request hrequest hown hreturned => hrun.reached_of_finished hown hreturned
      (by rw [Request.of?_eq_some.mpr hrequest]; rfl)
  refine
    { requested := fun number hnumber => hrun.requested hnumber
      once := hrun.reachers_nodup target
      reached := fun {_ request _ _} hown hreturned => hreached request rfl hown hreturned
      alone := ?_
      shows := ?_
      drained := ?_
      drainedLocked := ?_
      capacity := ?_
      failed := fun hplace hown hreturned =>
        (dealings_of_own haccount hown).failed hplace _ hreturned }
  · intro requests
    have hserved := served?_eq hroom requests
    obtain ⟨moves, history', hmoves, hstarted⟩ := run?_of_served? hserved
    exact ⟨moves, _, history', hmoves, hstarted, hserved⟩
  · have hreadsAlike := hmatches.readsAlike mailbox hmailbox
    exact ⟨_, alone?_eq _ hroom, hreadsAlike.queued, hreadsAlike.dropped,
      hmatches.free mailbox hmailbox⟩
  · intro number story messages hown hreturned
    have hvisited : visits target story = drained messages :=
      (dealings_of_own haccount hown).returned rfl messages hreturned
    obtain ⟨earlier, later, hreachers, rfl⟩ := hrun.drains hmailbox hown
      (by simp [Request.of?, Request.empties]) (hreached .drain rfl hown hreturned) hvisited
    exact ⟨earlier, later, hreachers, replies?_request _ hroom .drain⟩
  · intro number story messages hown hreturned
    have hvisited : visits target story = drained messages :=
      (dealings_of_own haccount hown).returned rfl messages hreturned
    obtain ⟨earlier, later, hreachers, rfl⟩ := hrun.drains hmailbox hown
      (by simp [Request.of?, Request.empties]) (hreached .drainLocked rfl hown hreturned) hvisited
    exact ⟨earlier, later, hreachers, replies?_request _ hroom .drainLocked⟩
  · intro number story slots hown hreturned
    obtain ⟨before, index, after, hhistory, hgains, rfl⟩ := hrun.sizes hmailbox hown hreturned
    exact ⟨before, index, after, hhistory, hgains, replies?_capacity _ hroom⟩

end Runs

namespace Mailbox

/-- Every thread of a table has a mailbox to itself, with the slots that the table was built to
reserve, and whatever else goes on, this mailbox behaves as one that stands alone. -/
theorem standsAlone_of_run? {count index : Nat} {moves : List (Nat × Move)} {machine : Machine}
    {history : History} {config : Config} {modes : List Mode} {table : Table}
    {engine : Ref .engine} {target : Ref .registry} {registry : Registry} {thread : Ref .thread}
    (hrun : (Machine.idle {} count).run? moves = some (machine, history))
    (htable : (index, .finished (.buildTable config modes) (.ok table)) ∈ history)
    (hengine : engine ∈ table.engines) (htarget : machine.world.registryOf? engine = some target)
    (hregistry : machine.world.registryAt? target = some registry)
    (hthread : thread ∈ registry.roster) :
    ∃ place mailbox, machine.world.mailboxOf? thread = some place ∧
      machine.world.mailboxAt? place = some mailbox ∧ mailbox.reserve = config.mailboxReserve ∧
        (∀ other, machine.world.mailboxOf? other = some place → other = thread) ∧
          StandsAlone place mailbox machine history := by
  have hruns := Machine.runs_of_run? hrun
  obtain ⟨place, mailbox, howner, hmailbox, hreserve⟩ :=
    hruns.mailbox_of_listed htable hengine htarget hregistry hthread
  exact ⟨place, mailbox, howner, hmailbox, hreserve,
    fun other hother => hruns.owner_eq hother howner, hruns.standsAlone hmailbox⟩

/-- A table with one slot to reserve for each mailbox. -/
def oneSlot : Config :=
  { bootstrapCore := ⟨0⟩, mailboxReserve := 1 }

open Schedule

/-- A thread gets messages before it is admitted, one of them from a handler that finds no free
slot, and another one while it is handed over.  A second flow drains the mailbox, and looks into it
again while the next message is on its way. -/
def pushesAndDrains : List (Nat × Move) :=
  inFlow 0 (along (.buildTable oneSlot [.execution]) 4 ++ creating ⟨0⟩ ++
    around (.push ⟨0⟩ (.notification .timeoutEvent 1)) 0 4 0) ++
  inFlow 1 (along (.pushFromInterrupt ⟨0⟩ (.notification .irqRaise 2)) 4) ++
  inFlow 0 (entering ⟨0⟩ ⟨0⟩ ++ [Move.answer (.createManager ⟨0⟩ true) (.ok ⟨0⟩)] ++ steps 8) ++
  inFlow 1 [.start (.drain ⟨0⟩), .step] ++
  inFlow 0 (around (.push ⟨0⟩ (.notification .timeoutEvent 3)) 0 4 0) ++
  inFlow 1 ([Move.answer .mask (.ok true)] ++ steps 6 ++
    [Move.answer (.restore true) (.ok ()), .step, .finish]) ++
  inFlow 0 ([Move.answer (.schedule ⟨0⟩ "" ⟨0⟩) (.ok ⟨5⟩)] ++ steps 5 ++
    around (.capacity ⟨0⟩) 0 3 0 ++
    [Move.start (.push ⟨0⟩ (.notification .timeoutEvent 4)), .answer .mask (.ok true)] ++
    steps 2) ++
  inFlow 1 (along (.drain ⟨0⟩) 1)

set_option maxRecDepth 8192 in
theorem standsAlone_pushesAndDrains : ∃ machine history registry mailbox,
    (Machine.idle {} 2).run? pushesAndDrains = some (machine, history) ∧
      (0, .finished (.buildTable oneSlot [.execution]) (.ok ⟨#[⟨0⟩]⟩)) ∈ history ∧
        machine.world.registryOf? ⟨0⟩ = some ⟨0⟩ ∧
          machine.world.registryAt? ⟨0⟩ = some registry ∧ ⟨0⟩ ∈ registry.roster ∧
            machine.world.mailboxAt? ⟨0⟩ = some mailbox ∧
              taken (visits ⟨0⟩ (history.map Prod.snd)) =
                  [.notification .timeoutEvent 1, .notification .timeoutEvent 3] ∧
                (Journal.ofHistory history).arrived ⟨0⟩ =
                    [.push (.notification .timeoutEvent 1), .offer (.notification .irqRaise 2),
                      .push (.notification .timeoutEvent 3), .drain, .drain] ∧
                  StandsAlone ⟨0⟩ mailbox machine history := by
  have hsome : ((Machine.idle {} 2).run? pushesAndDrains).isSome := by decide +kernel
  obtain ⟨⟨machine, history⟩, hrun⟩ := Option.isSome_iff_exists.mp hsome
  have hbuilt : (((Machine.idle {} 2).run? pushesAndDrains).bind fun outcome => outcome.2[5]?) =
      some (0, .finished (.buildTable oneSlot [.execution]) (.ok ⟨#[⟨0⟩]⟩)) := by rfl
  have htarget : (((Machine.idle {} 2).run? pushesAndDrains).bind fun outcome =>
      outcome.1.world.registryOf? ⟨0⟩) = some ⟨0⟩ := by decide +kernel
  have hregistry : (((Machine.idle {} 2).run? pushesAndDrains).bind fun outcome =>
      outcome.1.world.registryAt? ⟨0⟩) = some ⟨⟨0⟩, 1, ⟨0⟩, 1, #[⟨0⟩], #[]⟩ := by decide +kernel
  have howner : (((Machine.idle {} 2).run? pushesAndDrains).bind fun outcome =>
      outcome.1.world.mailboxOf? ⟨0⟩) = some ⟨0⟩ := by decide +kernel
  have htaken : (((Machine.idle {} 2).run? pushesAndDrains).map fun outcome =>
      (taken (visits ⟨0⟩ (outcome.2.map Prod.snd)), (Journal.ofHistory outcome.2).arrived ⟨0⟩)) =
        some ([.notification .timeoutEvent 1, .notification .timeoutEvent 3],
          [.push (.notification .timeoutEvent 1), .offer (.notification .irqRaise 2),
            .push (.notification .timeoutEvent 3), .drain, .drain]) := by decide +kernel
  rw [hrun] at hbuilt htarget hregistry howner htaken
  obtain ⟨hmessages, harrived⟩ := Prod.mk.inj (Option.some.inj htaken)
  have htable := List.mem_of_getElem? hbuilt
  have hlisted : (⟨0⟩ : Ref .thread) ∈ #[⟨0⟩] := by simp
  obtain ⟨place, mailbox, hplace, hmailbox, _, _, hstands⟩ :=
    standsAlone_of_run? hrun htable (by simp) htarget hregistry hlisted
  obtain rfl := Option.some.inj (hplace.symm.trans howner)
  exact ⟨machine, history, _, mailbox, hrun, htable, htarget, hregistry, hlisted, hmailbox,
    hmessages, harrived, hstands⟩

end Mailbox

end CoreEngines
