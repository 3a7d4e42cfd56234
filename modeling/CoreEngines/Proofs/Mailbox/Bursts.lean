import CoreEngines.Proofs.Mailbox.Capacity
import CoreEngines.Proofs.Moments

/-!
Bursts of messages.  Between two drains a queue only fills up.  The slots that it began with bound
what handlers can deliver for as long as no push finds the queue full; a push that does makes room
for handlers too.
-/

namespace CoreEngines.Mailbox

namespace Visit

def delivered? : Visit → Option Message
  | offered message true => some message
  | _ => none

/-- The message that came in without regard to the free slots, if one did. -/
def deferred? : Visit → Option Message
  | pushed message => some message
  | _ => none

end Visit

def delivered (visits : List Visit) : List Message :=
  visits.filterMap Visit.delivered?

def deferred (visits : List Visit) : List Message :=
  visits.filterMap Visit.deferred?

/-- A burst among the visits to a mailbox: nothing has happened before it, or a drain has just taken
messages out, and it takes none out itself. -/
structure Burst (visits early burst : List Visit) : Prop where
  among : early ++ burst <+: visits
  begins : early = [] ∨ ∃ earlier messages, early = earlier ++ [.taken messages]
  keeps : taken burst = []

/-- What drains and handlers find when they come to a mailbox, among all visits to it. -/
structure Regular (mailbox : Mailbox) (visits : List Visit) : Prop where
  /-- A drain takes out all that has come in and is still there. -/
  emptied : ∀ {early messages late}, visits = early ++ .taken messages :: late →
    messages ≠ #[] ∧ taken early ++ messages.toList = accepted early
  /-- A message from a handler is refused if the length is one of the chain. -/
  offered : ∀ {early message entered late}, visits = early ++ .offered message entered :: late →
    (entered = false ↔
      Slots.Full (mailbox.base early) ((accepted early).length - (taken early).length))

theorem length_accepted (visits : List Visit) :
    (accepted visits).length = (delivered visits).length + (deferred visits).length := by
  induction visits with
  | nil => rfl
  | cons visit visits ih =>
      simp only [accepted, delivered, deferred, List.filterMap_cons] at ih ⊢
      rcases visit with message | ⟨message, _ | _⟩ | messages | slots <;>
        simp only [Visit.accepted?, Visit.delivered?, Visit.deferred?, List.length_cons, ih] <;>
        omega

section
variable {mailbox : Mailbox} {visits early burst first rest : List Visit}

namespace Burst

theorem sooner (hburst : Burst visits early (first ++ rest)) : Burst visits early first where
  among := by
    have hprior : early ++ first <+: early ++ (first ++ rest) := by simp
    exact hprior.trans hburst.among
  begins := hburst.begins
  keeps := by
    have hkeeps := hburst.keeps
    rw [taken_append] at hkeeps
    exact (List.append_eq_nil_iff.mp hkeeps).1

theorem base_append (hburst : Burst visits early burst) :
    mailbox.base (early ++ burst) = mailbox.base early := by
  rw [base, base, taken_append, hburst.keeps, List.append_nil]

variable (hregular : mailbox.Regular visits)
include hregular

/-- Nothing is left in the queue when a burst begins. -/
theorem taken_eq_accepted (hburst : Burst visits early burst) : taken early = accepted early := by
  obtain rfl | ⟨earlier, messages, rfl⟩ := hburst.begins
  · rfl
  · obtain ⟨late, hvisits⟩ := hburst.among
    rw [List.append_assoc, List.append_assoc] at hvisits
    obtain ⟨_, hemptied⟩ := hregular.emptied hvisits.symm
    rw [taken_append, accepted_append, ← hemptied]
    simp [taken, accepted, Visit.messages, Visit.accepted?]

/-- A burst begins with the reserve, or with what the drain before it has reserved. -/
theorem base_eq (hburst : Burst visits early burst) :
    mailbox.base early =
      if early = [] then mailbox.reserve else Slots.replenished mailbox.reserve := by
  obtain rfl | ⟨earlier, messages, rfl⟩ := hburst.begins
  · rfl
  · obtain ⟨late, hvisits⟩ := hburst.among
    rw [List.append_assoc, List.append_assoc] at hvisits
    obtain ⟨hmessages, _⟩ := hregular.emptied hvisits.symm
    have htaken : taken (earlier ++ [.taken messages]) ≠ [] := by
      simp [taken_concat, Visit.messages, hmessages]
    rw [base, if_neg htaken, if_neg (by simp)]

theorem offered {message : Message} {entered : Bool}
    (hburst : Burst visits early (burst ++ [.offered message entered])) :
    entered = false ↔ Slots.Full (mailbox.base early) (accepted burst).length := by
  obtain ⟨late, hvisits⟩ := hburst.among
  rw [← List.append_assoc, List.append_assoc] at hvisits
  rw [hregular.offered hvisits.symm, hburst.sooner.base_append, accepted_append, taken_append,
    hburst.sooner.keeps, hburst.taken_eq_accepted hregular]
  simp

/-- A length of the chain is passed by a push that finds the queue full. -/
theorem passed {steps : Nat} (hburst : Burst visits early burst)
    (hmore : Slots.chain (mailbox.base early) steps < (accepted burst).length) :
    ∃ first message rest, burst = first ++ .pushed message :: rest ∧
      (accepted first).length = Slots.chain (mailbox.base early) steps := by
  induction burst using List.reverseRecOn with
  | nil => exact absurd hmore (Nat.not_lt_zero _)
  | append_singleton burst visit ih =>
      by_cases hbefore : Slots.chain (mailbox.base early) steps < (accepted burst).length
      · obtain ⟨first, message, rest, rfl, hfirst⟩ := ih hburst.sooner hbefore
        exact ⟨first, message, rest ++ [visit], by simp, hfirst⟩
      · rw [accepted_concat, List.length_append] at hmore
        cases visit with
        | pushed message =>
            refine ⟨burst, message, [], rfl, ?_⟩
            simp only [Visit.accepted?, Option.toList_some, List.length_singleton] at hmore
            omega
        | offered message entered =>
            cases entered with
            | false => exact absurd hmore hbefore
            | true =>
                have hfull := hburst.offered hregular
                simp only [Visit.accepted?, Option.toList_some, List.length_singleton] at hmore
                have hlength : Slots.chain (mailbox.base early) steps =
                    (accepted burst).length := by omega
                cases hfull.mpr ⟨steps, hlength⟩
        | taken messages => exact absurd hmore hbefore
        | sized slots => exact absurd hmore hbefore

/-- Every push doubles the slots at most once. -/
theorem length_le (hburst : Burst visits early burst) :
    (accepted burst).length ≤ Slots.chain (mailbox.base early) (deferred burst).length := by
  induction burst using List.reverseRecOn with
  | nil => exact Nat.zero_le _
  | append_singleton burst visit ih =>
      have hbefore := ih hburst.sooner
      rw [accepted_concat, List.length_append, deferred, List.filterMap_append, List.length_append,
        ← deferred]
      cases visit with
      | pushed message =>
          have hmore := Slots.chain_lt_succ (mailbox.base early) (deferred burst).length
          exact Nat.le_trans (Nat.succ_le_succ hbefore) hmore
      | offered message entered =>
          cases entered with
          | false => exact hbefore
          | true =>
              have hfull := hburst.offered hregular
              have hroom : (accepted burst).length ≠
                  Slots.chain (mailbox.base early) (deferred burst).length := fun hlength => by
                cases hfull.mpr ⟨_, hlength.symm⟩
              exact Nat.lt_of_le_of_ne hbefore hroom
      | taken messages => exact hbefore
      | sized slots => exact hbefore

/-- No message is dropped before the slots of the beginning are taken. -/
theorem base_le_of_refused (hburst : Burst visits early burst) (hrefused : refused burst ≠ []) :
    mailbox.base early ≤ (accepted burst).length := by
  obtain ⟨message, hmessage⟩ := List.exists_mem_of_ne_nil _ hrefused
  obtain ⟨visit, hvisit, hdropped⟩ := List.mem_filterMap.mp hmessage
  obtain ⟨first, rest, rfl⟩ := List.append_of_mem hvisit
  have hfirst : (accepted first).length ≤ (accepted (first ++ visit :: rest)).length := by
    rw [accepted_append, List.length_append]
    exact Nat.le_add_right _ _
  rcases visit with _ | ⟨_, _ | _⟩ | _ | _
  case offered.false =>
    rw [List.append_cons] at hburst
    obtain ⟨steps, hsteps⟩ := (hburst.sooner.offered hregular).mp rfl
    have hbase : mailbox.base early ≤ Slots.chain (mailbox.base early) steps :=
      (Slots.chain_strictMono _).monotone (Nat.zero_le steps)
    omega
  all_goals cases hdropped

/-- Handlers alone fill the slots of the beginning, and no more. -/
theorem alone (hburst : Burst visits early burst) (hdeferred : deferred burst = []) :
    (delivered burst).length =
      min ((delivered burst).length + (refused burst).length) (mailbox.base early) := by
  have hbounded := hburst.length_le hregular
  have hlength := length_accepted burst
  rw [hdeferred, List.length_nil, Nat.add_zero] at hlength
  rw [hdeferred, List.length_nil, hlength, Slots.chain] at hbounded
  by_cases hrefused : refused burst = []
  · rw [hrefused, List.length_nil]
    omega
  · have hfull := hburst.base_le_of_refused hregular hrefused
    omega

/-- No more than the reserve comes in if nothing was rounded up and no push finds it taken. -/
theorem length_le_reserve (hburst : Burst visits early burst)
    (hreserve : early = [] ∨ mailbox.reserve = 0 ∨ 4 ≤ mailbox.reserve)
    (hpushes : ∀ first message rest, burst = first ++ .pushed message :: rest →
      (accepted first).length ≠ mailbox.reserve) :
    (accepted burst).length ≤ mailbox.reserve := by
  have hbase : mailbox.base early = mailbox.reserve := by
    rw [hburst.base_eq hregular, Slots.replenished]
    rcases hreserve with rfl | hreserve
    · rw [if_pos rfl]
    · split
      · rfl
      · split <;> omega
  by_contra hmore
  have hpassed : Slots.chain (mailbox.base early) 0 < (accepted burst).length := by
    rw [Slots.chain, hbase]
    exact Nat.lt_of_not_le hmore
  obtain ⟨first, message, rest, hsplit, hfirst⟩ := hburst.passed hregular hpassed
  exact hpushes first message rest hsplit (hfirst.trans hbase)

end Burst

end

/-- How many messages can come in between two drains. -/
structure Limits (target : Ref .mailbox) (mailbox : Mailbox) (history : History) : Prop where
  /-- Whoever pushes has come to the mailbox once when it returns, and so has a drain if it returns
  messages. -/
  dealings : ∀ number < (Journal.ofHistory history).started, ∃ operation story,
    (Journal.ofHistory history).own number = .started operation :: story ∧
      operation.Dealings target story
  /-- A burst begins with the reserve, or, after a drain, with the reserve rounded up. -/
  begins : ∀ {early burst}, Burst (visits target (history.map Prod.snd)) early burst →
    mailbox.base early =
      if early = [] then mailbox.reserve else Slots.replenished mailbox.reserve
  /-- A message from a handler is dropped if as many as one length of the chain have come in since
  then, and only then. -/
  offered : ∀ {early burst message entered},
    Burst (visits target (history.map Prod.snd)) early (burst ++ [.offered message entered]) →
      (entered = false ↔ Slots.Full (mailbox.base early) (accepted burst).length)
  /-- So each of these lengths is passed by a push that is not from a handler, -/
  passed : ∀ {early burst steps}, Burst (visits target (history.map Prod.snd)) early burst →
    Slots.chain (mailbox.base early) steps < (accepted burst).length →
      ∃ first message rest, burst = first ++ .pushed message :: rest ∧
        (accepted first).length = Slots.chain (mailbox.base early) steps
  /-- and as many such pushes are in the burst, so often the slots can have doubled. -/
  bounded : ∀ {early burst}, Burst (visits target (history.map Prod.snd)) early burst →
    (delivered burst).length + (deferred burst).length ≤
      Slots.chain (mailbox.base early) (deferred burst).length
  /-- Handlers alone fill all the slots of the beginning, and no more. -/
  alone : ∀ {early burst}, Burst (visits target (history.map Prod.snd)) early burst →
    deferred burst = [] → (delivered burst).length =
      min ((delivered burst).length + (refused burst).length) (mailbox.base early)
  /-- The reserve is a bound if nothing was rounded up and no push has found the slots taken. -/
  reserved : ∀ {early burst}, Burst (visits target (history.map Prod.snd)) early burst →
    early = [] ∨ mailbox.reserve = 0 ∨ 4 ≤ mailbox.reserve →
      (∀ first message rest, burst = first ++ .pushed message :: rest →
        (accepted first).length ≠ mailbox.reserve) →
        (delivered burst).length + (deferred burst).length ≤ mailbox.reserve

section
variable {target : Ref .mailbox} {count : Nat} {moves : List (Nat × Move)} {machine : Machine}
  {history : History} {mailbox : Mailbox} {early late : List Visit}

/-- For every visit there is the moment at which it was made. -/
theorem moment_of_visits {visit : Visit}
    (hrun : (Machine.idle {} count).run? moves = some (machine, history))
    (hmailbox : machine.world.mailboxAt? target = some mailbox)
    (hvisits : visits target (history.map Prod.snd) = early ++ visit :: late) :
    ∃ first middle before index move next access answer found,
      (Machine.idle {} count).run? first = some (middle, before) ∧
        visits target (before.map Prod.snd) = early ∧
          middle.move? index move = some (next, .acted (.mailbox target access) answer) ∧
            access.visit? answer = some visit ∧ middle.world.mailboxAt? target = some found ∧
              (found.access access).1 = answer ∧ found.reserve = mailbox.reserve := by
  rw [visits, List.filterMap_map] at hvisits
  obtain ⟨front, back, rfl, hfront, hback⟩ := List.filterMap_eq_append_iff.mp hvisits
  obtain ⟨skipped, ⟨index, happening⟩, after, rfl, hskipped, hof, _⟩ :=
    List.filterMap_eq_cons_iff.mp hback
  obtain ⟨access, answer, rfl, hvisit⟩ := Visit.access_of_of? hof
  rw [← List.append_assoc] at hrun
  obtain ⟨middle, first, move, next, second, hfirst, hmove, hsecond⟩ := Machine.run?_moment hrun
  obtain ⟨found, hfound, hanswer, hnext⟩ := World.perform?_mailbox (Machine.perform?_of_move? hmove)
  refine ⟨first, middle, front ++ skipped, index, move, next, access, answer, found, hfirst, ?_,
    hmove, hvisit, hfound, hanswer, ?_⟩
  · rw [visits, List.filterMap_map, List.filterMap_append, hfront,
      List.filterMap_eq_nil_iff.mpr hskipped, List.append_nil]
  · have hreserve : next.world.reserveOf? target = some found.reserve := by
      rw [World.reserveOf?, hnext, Option.map_some, World.mailbox_access_reserve]
    have hlater := Machine.keeps_run? (fun world => world.reserveOf? target = some found.reserve)
      (fun hkept hafter => (World.outlasts_after hafter).reserves hkept) hsecond hreserve
    rw [World.reserveOf?, hmailbox] at hlater
    exact (Option.some.inj hlater).symm

/-- Nobody takes no messages out. -/
theorem nonempty_of_visits {operation : Operation} {messages : Array Message}
    (hvisits : operation.Visits target (early ++ [.taken messages])) : messages ≠ #[] := by
  obtain hnone | ⟨_, hmade⟩ := hvisits
  · simp at hnone
  · cases operation with
    | push _ _ => simp [List.append_eq_singleton_iff] at hmade
    | pushFromInterrupt _ _ => simp [List.append_eq_singleton_iff] at hmade
    | capacity _ => simp [List.append_eq_singleton_iff] at hmade
    | drain _ | drainLocked _ =>
        obtain ⟨found, hfound, hmade⟩ := hmade
        have hlast := congrArg List.getLast? hmade
        simp only [List.getLast?_concat, List.getLast?_singleton, Option.some.injEq,
          Visit.taken.injEq] at hlast
        exact hlast ▸ hfound
    | _ => cases hmade

/-- Whoever takes messages out of a mailbox gets all that are there, and at least one. -/
theorem emptied_of_run?
    (hrun : (Machine.idle {} count).run? moves = some (machine, history))
    (hmailbox : machine.world.mailboxAt? target = some mailbox) {messages : Array Message}
    (hvisits : visits target (history.map Prod.snd) = early ++ .taken messages :: late) :
    messages ≠ #[] ∧ taken early ++ messages.toList = accepted early := by
  obtain ⟨first, middle, before, index, move, next, access, answer, found, hfirst, rfl, hmove,
    hvisit, hfound, hanswer, _⟩ := moment_of_visits hrun hmailbox hvisits
  cases access with
  | detach =>
      cases hvisit
      have hruns := Machine.runs_of_run? hfirst
      obtain ⟨flow, hmoves, _⟩ := Machine.move?_moves hmove
      obtain ⟨_, _, operation, steps, _, _, _, _, ⟨_, hmade, _⟩⟩ :=
        hruns.allows (sections_obeyed target) (upkeep_upholds target) hmoves rfl
      simp only [Visit.of?, if_pos, Access.visit?, Option.toList_some] at hmade
      have hupkeep := (hruns.account (sections_obeyed target) (upkeep_upholds target)).2
      exact ⟨nonempty_of_visits hmade, hanswer ▸ hupkeep.inOrder found hfound⟩
  | _ => cases hvisit

theorem offered_of_run?
    (hrun : (Machine.idle {} count).run? moves = some (machine, history))
    (hmailbox : machine.world.mailboxAt? target = some mailbox) {message : Message}
    {entered : Bool}
    (hvisits : visits target (history.map Prod.snd) = early ++ .offered message entered :: late) :
    entered = false ↔
      Slots.Full (mailbox.base early) ((accepted early).length - (taken early).length) := by
  obtain ⟨first, middle, before, index, move, next, access, answer, found, hfirst, rfl, hmove,
    hvisit, hfound, _, hreserve⟩ := moment_of_visits hrun hmailbox hvisits
  cases access with
  | offer message =>
      cases hvisit
      have hupkeep := ((Machine.runs_of_run? hfirst).account (sections_obeyed target)
        (upkeep_upholds target)).2
      have horder := hupkeep.inOrder found hfound
      obtain ⟨hpublished, _⟩ := settled_of_move? hfirst hfound hmove (Or.inr ⟨message, rfl⟩)
      have hlength : found.queued = (accepted (visits target (before.map Prod.snd))).length -
          (taken (visits target (before.map Prod.snd))).length := by
        rw [hpublished, ← horder]
        simp
      have hbase : mailbox.base (visits target (before.map Prod.snd)) =
          found.base (visits target (before.map Prod.snd)) := by
        rw [base, base, hreserve]
      rw [← hlength, hbase, ← offer_none_iff hfirst hfound hmove]
      simp
  | _ => cases hvisit

/-- The limits hold in every run of any number of flows. -/
theorem limits_of_run? (hrun : (Machine.idle {} count).run? moves = some (machine, history))
    (hmailbox : machine.world.mailboxAt? target = some mailbox) :
    Limits target mailbox history := by
  have haccount := ((Machine.runs_of_run? hrun).account (sections_obeyed target)
    (upkeep_upholds target)).1
  have hregular : mailbox.Regular (visits target (history.map Prod.snd)) :=
    ⟨emptied_of_run? hrun hmailbox, offered_of_run? hrun hmailbox⟩
  exact
    { dealings := fun number => dealings haccount
      begins := fun hburst => hburst.base_eq hregular
      offered := fun hburst => hburst.offered hregular
      passed := fun hburst => hburst.passed hregular
      bounded := fun hburst => length_accepted _ ▸ hburst.length_le hregular
      alone := fun hburst => hburst.alone hregular
      reserved := fun hburst hreserve hpushes =>
        length_accepted _ ▸ hburst.length_le_reserve hregular hreserve hpushes }

end

open Schedule

/-- A mailbox that is to reserve one slot gets four by a drain, and handlers fill them all. -/
def handlersBeyondReserve : List (Nat × Move) :=
  inFlow 0 (along (.makeMailbox 1) 1 ++ around (.push ⟨0⟩ (.notification .timeoutEvent 1)) 0 4 0 ++
    around (.drain ⟨0⟩) 1 6 1 ++
    (List.replicate 4 (along (.pushFromInterrupt ⟨0⟩ (.notification .irqRaise 2)) 4)).flatten)

theorem limits_handlersBeyondReserve : ∃ machine history mailbox early burst,
    (Machine.idle {} 1).run? handlersBeyondReserve = some (machine, history) ∧
      machine.world.mailboxAt? ⟨0⟩ = some mailbox ∧ mailbox.reserve = 1 ∧
        Burst (visits ⟨0⟩ (history.map Prod.snd)) early burst ∧ (delivered burst).length = 4 ∧
          Limits ⟨0⟩ mailbox history := by
  have hsome : ((Machine.idle {} 1).run? handlersBeyondReserve).isSome := by rfl
  obtain ⟨⟨machine, history⟩, hrun⟩ := Option.isSome_iff_exists.mp hsome
  let early : List Visit := [.pushed (.notification .timeoutEvent 1)]
  let drain : Visit := .taken #[.notification .timeoutEvent 1]
  let burst : List Visit := List.replicate 4 (.offered (.notification .irqRaise 2) true)
  have hvisits : (((Machine.idle {} 1).run? handlersBeyondReserve).map fun outcome =>
      visits ⟨0⟩ (outcome.2.map Prod.snd)) = some (early ++ [drain] ++ burst) := by rfl
  have hmailbox : (((Machine.idle {} 1).run? handlersBeyondReserve).bind fun outcome =>
      outcome.1.world.mailboxAt? ⟨0⟩).isSome := by rfl
  have hreserve : (((Machine.idle {} 1).run? handlersBeyondReserve).bind fun outcome =>
      outcome.1.world.mailboxAt? ⟨0⟩).map (·.reserve) = some 1 := by rfl
  rw [hrun] at hvisits hmailbox hreserve
  obtain ⟨mailbox, hmailbox⟩ := Option.isSome_iff_exists.mp hmailbox
  rw [hmailbox] at hreserve
  have hburst : Burst (visits ⟨0⟩ (history.map Prod.snd)) (early ++ [drain]) burst :=
    ⟨⟨[], (List.append_nil _).trans (Option.some.inj hvisits).symm⟩, Or.inr ⟨early, _, rfl⟩, rfl⟩
  exact ⟨machine, history, mailbox, _, burst, hrun, hmailbox, Option.some.inj hreserve, hburst, rfl,
    limits_of_run? hrun hmailbox⟩

end CoreEngines.Mailbox
