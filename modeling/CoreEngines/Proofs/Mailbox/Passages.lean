import CoreEngines.Proofs.Mailbox.Agreement
import CoreEngines.Proofs.Mailbox.Capacity
import CoreEngines.Proofs.Mailbox.Stories

/-!
Passages.  Whoever has the lock of a mailbox has the mailbox to itself.  So what an operation leaves
there when it gives the lock back is what it has found under the lock, served with its request, and
whatever others do meanwhile makes no difference.
-/

namespace CoreEngines

/-- A history has led to one world only. -/
theorem Runs.world_unique {start world other : World} {history : History}
    {flows flows' : Nat → Flow} (hrun : Runs start history world flows)
    (hother : Runs start history other flows') : other = world := by
  induction hrun generalizing other flows' with
  | idle =>
      generalize hnone : ([] : History) = history at hother
      cases hother with
      | idle => rfl
      | move => simp at hnone
  | @move history past world flows index happening flow hpast hmove ih =>
      generalize hlonger : history ++ [(index, happening)] = longer at hother
      cases hother with
      | idle => simp at hlonger
      | move hpast' hmove' =>
          obtain ⟨rfl, hlast⟩ := List.append_inj' hlonger rfl
          cases hlast
          obtain rfl := ih hpast'
          have hafter := hmove.after
          have hafter' := hmove'.after
          cases happening with
          | acted action answer =>
              exact congrArg Prod.snd (Option.some.inj (hafter'.symm.trans hafter))
          | _ => exact Eq.trans hafter' (Eq.symm hafter)

namespace Mailbox

variable {target : Ref .mailbox} {operation : Operation} {found left : Mailbox}

def Accesses (target : Ref .mailbox) (step : Happening) : Prop :=
  ∃ access answer, step = .acted (.mailbox target access) answer

/-- Accesses that lead from one state of a mailbox to another. -/
def Leads (target : Ref .mailbox) : Mailbox → List Happening → Mailbox → Prop
  | found, [], left => left = found
  | found, .acted (.mailbox place access) answer :: steps, left =>
      place = target ∧ answer = (found.access access).1 ∧
        Leads target (found.access access).2 steps left
  | _, _ :: _, _ => False

theorem Leads.concat {steps : List Happening} (hleads : Leads target found steps left)
    (access : Access) :
    Leads target found (steps ++ [.acted (.mailbox target access) (left.access access).1])
      (left.access access).2 := by
  induction steps generalizing found with
  | nil =>
      obtain rfl : left = found := hleads
      exact ⟨rfl, rfl, rfl⟩
  | cons step steps ih =>
      cases step with
      | acted action answer =>
          cases action with
          | mailbox place access =>
              obtain ⟨hplace, hanswer, hrest⟩ := hleads
              exact ⟨hplace, hanswer, ih hrest⟩
          | _ => exact hleads.elim
      | _ => exact hleads.elim

/-- The visits that an operation makes to a mailbox that it finds like this. -/
def visited (found : Mailbox) : Operation → List Visit
  | .push _ message => [.pushed message]
  | .pushFromInterrupt _ message => [.offered message (found.queue.size < found.slots)]
  | .drain _ | .drainLocked _ => drained found.queue
  | .capacity _ => [.sized found.slots]
  | _ => []

theorem accesses_of_inSection {steps : List Happening}
    (hinSection : InSection target operation steps) :
    steps ≠ [] ∧ ∀ step ∈ steps, Accesses target step := by
  cases hinSection <;> simp [Accesses]

theorem empties_of_drains (hdrains : operation.Drains target) :
    (Request.of? target operation).any Request.empties := by
  cases operation with
  | drain | drainLocked =>
      cases hdrains
      simp [Request.of?, Request.empties]
  | _ => exact hdrains.elim

theorem visited_of_drains (hdrains : operation.Drains target) :
    found.visited operation = drained found.queue := by
  cases operation <;> first | rfl | exact hdrains.elim

/-- What is done inside of a section serves the request of the operation, if it makes one. -/
theorem serving_of_leads {steps : List Happening} (hinSection : InSection target operation steps)
    (hleads : Leads target found steps left) :
    left = found.serving (Request.of? target operation) ∧
      visits target steps = found.visited operation := by
  cases hinSection with
  | push message length =>
      obtain ⟨_, rfl, _, _, rfl⟩ := hleads
      simp [Request.of?, serving, Request.serve, access, visits, Visit.of?, Access.visit?, visited]
  | capacity slots =>
      obtain ⟨_, rfl, rfl⟩ := hleads
      simp [Request.of?, serving, access, visits, Visit.of?, Access.visit?, visited]
  | vacant hdrains =>
      obtain ⟨_, hlength, hsame⟩ := hleads
      obtain rfl : left = found := hsame
      have hempty : left.queue = #[] := Array.eq_empty_of_size_eq_zero hlength.symm
      rw [serving_of_empties (empties_of_drains hdrains), visited_of_drains hdrains]
      simp [hempty, drained, visits, Visit.of?, Access.visit?]
  | full hdrains hlength messages =>
      obtain ⟨_, rfl, _, rfl, _, hreplenished, _, _, rfl⟩ := hleads
      have hqueue : found.queue ≠ #[] := fun hempty => hlength (congrArg Array.size hempty)
      have hroom : Slots.allocatable (Slots.replenished found.reserve) := by
        by_contra hnone
        simp [access, hnone] at hreplenished
      rw [serving_of_empties (empties_of_drains hdrains), visited_of_drains hdrains]
      simp [access, hroom, hqueue, drained, visits, Visit.of?, Access.visit?]

/-- Nobody leaves a section with an access. -/
theorem ne_away_of_accesses {steps : List Happening} {hold hold' : Hold} (hhold : hold ≠ .away)
    (hsteps : ∀ step ∈ steps, Accesses target step)
    (hfold : steps.foldlM (Hold.next? target) hold = some hold') : hold' ≠ .away := by
  induction steps generalizing hold with
  | nil =>
      cases hfold
      exact hhold
  | cons step steps ih =>
      obtain ⟨⟨access, answer, rfl⟩, hrest⟩ := List.forall_mem_cons.mp hsteps
      obtain ⟨next, hnext, hfold⟩ :=
        Option.bind_eq_some_iff.mp ((List.foldlM_cons (m := Option)).symm.trans hfold)
      simp only [Hold.next?, if_pos] at hnext
      exact ih (mt (Hold.access?_away_iff hnext).mp hhold) hrest hfold

/-- What an operation has done that has just taken the lock. -/
def Opens (target : Ref .mailbox) (opening : List Happening) : Prop :=
  ∃ operation early,
    opening = (.started operation :: early) ++ [.acted (.acquire (.queue target)) ()] ∧
      ∀ happening ∈ early, happening.isStep

/-- The mailbox at the moment at which all this had happened, and the operation had done that. -/
structure Moment (target : Ref .mailbox) (number : Nat) (story : List Happening) (before : History)
    (found : Mailbox) : Prop where
  own : (Journal.ofHistory before).own number = story
  found : ∃ past flows, Runs {} before past flows ∧ past.mailboxAt? target = some found

end Mailbox

open Mailbox

namespace Runs

variable {world later : World} {history : History} {flows flows' : Nat → Flow}
  {target : Ref .mailbox} {number : Nat} {opening steps : List Happening}

/-- Whoever has made accesses under the lock is inside of its section. -/
theorem inside (hrun : Runs {} history world flows) (hopens : Opens target opening)
    (haccesses : ∀ step ∈ steps, Accesses target step)
    (hown : (Journal.ofHistory history).own number = opening ++ steps) :
    holding ((sections target).standing (.ofHistory history)) number ≠ .away := by
  obtain ⟨haccount, _⟩ := hrun.account (sections_obeyed target) (upkeep_upholds target)
  obtain ⟨operation, early, rfl, hearly⟩ := hopens
  rw [List.append_assoc, List.cons_append, List.singleton_append] at hown
  have hsteps : ∀ happening ∈ early ++ .acted (.acquire (.queue target)) () :: steps,
      happening.isStep := by
    rw [List.forall_mem_append, List.forall_mem_cons]
    refine ⟨hearly, rfl, fun step hmem => ?_⟩
    obtain ⟨access, answer, rfl⟩ := haccesses step hmem
    rfl
  obtain ⟨before, _, hrest⟩ := Option.bind_eq_some_iff.mp
    ((List.foldlM_append (m := Option)).symm.trans (holding_of_own haccount hown hsteps))
  obtain ⟨next, hnext, hrest⟩ :=
    Option.bind_eq_some_iff.mp ((List.foldlM_cons (m := Option)).symm.trans hrest)
  simp only [Hold.next?, if_pos, Option.ite_none_right_eq_some, Option.some.injEq] at hnext
  obtain ⟨_, rfl⟩ := hnext
  exact ne_away_of_accesses (by simp : Hold.settled ≠ .away) haccesses hrest

/-- While one is inside of a section nobody else changes the mailbox. -/
theorem untouched {index other : Nat} {happening : Happening} {mailbox : Mailbox}
    (hrun : Runs {} history world flows)
    (hnext : Runs {} (history ++ [(index, happening)]) later flows')
    (hafter : world.After happening later)
    (hgains : (Journal.ofHistory history).Gains
      (Journal.ofHistory (history ++ [(index, happening)])) other happening)
    (hinside : holding ((sections target).standing (.ofHistory history)) number ≠ .away)
    (hother : other ≠ number) (hmailbox : world.mailboxAt? target = some mailbox) :
    later.mailboxAt? target = some mailbox := by
  have hreserve : world.reserveOf? target = some mailbox.reserve := by
    simp [World.reserveOf?, hmailbox]
  obtain ⟨mailbox', hlater, _⟩ :=
    Option.map_eq_some_iff.mp ((World.outlasts_after hafter).reserves hreserve)
  rcases hafter.mailboxAt? hmailbox hlater with rfl | ⟨access, answer, rfl, rfl⟩
  · exact hlater
  · -- All others are away, and can only peek.
    obtain ⟨_, hupkeep⟩ := hrun.account (sections_obeyed target) (upkeep_upholds target)
    obtain ⟨haccount, _⟩ := hnext.account (sections_obeyed target) (upkeep_upholds target)
    obtain ⟨visitor, hstate, hallows, _⟩ := (haccount.gained hgains).1
    have haway : visitor.hold = .away := by
      simpa [holding, hstate] using hupkeep.others hinside other hother
    obtain ⟨hold, hhold⟩ := Option.isSome_iff_exists.mp hallows
    simp only [haway, Hold.next?, if_pos] at hhold
    obtain rfl := Hold.access?_of_away hhold
    exact hlater

/-- The accesses that an operation has made under the lock have led from what it found there to what
is there now. -/
theorem leads (hrun : Runs {} history world flows) (hopens : Opens target opening)
    (hsome : steps ≠ []) (haccesses : ∀ step ∈ steps, Accesses target step)
    (hown : (Journal.ofHistory history).own number = opening ++ steps) :
    ∃ before middle found left, history = before ++ middle ∧
      Moment target number opening before found ∧ world.mailboxAt? target = some left ∧
        Leads target found steps left := by
  induction hrun generalizing steps with
  | idle =>
      obtain ⟨operation, early, rfl, _⟩ := hopens
      simp [Journal.ofHistory, Journal.own, Journal.blank] at hown
  | @move history world later flows index happening flow hpast hmove ih =>
      obtain ⟨doer, hgains⟩ := (Runs.move hpast hmove).gains
      by_cases hdoer : doer = number
      · subst hdoer
        obtain rfl | ⟨steps, last, rfl⟩ := List.eq_nil_or_concat steps
        · exact absurd rfl hsome
        rw [List.concat_eq_append] at haccesses hown ⊢
        rw [hgains.own_self, ← List.append_assoc] at hown
        obtain ⟨hmade, hlast⟩ := List.append_inj' hown rfl
        obtain rfl := List.singleton_inj.mp hlast
        obtain ⟨hearlier, hlast⟩ := List.forall_mem_append.mp haccesses
        obtain ⟨access, answer, rfl⟩ := hlast _ (List.mem_singleton_self _)
        obtain ⟨mailbox, hat, rfl, hlater⟩ := World.perform?_mailbox hmove.after
        by_cases hfirst : steps = []
        · subst hfirst
          exact ⟨history, _, mailbox, _, rfl, ⟨by simpa using hmade, world, _, hpast, hat⟩, hlater,
            rfl, rfl, rfl⟩
        · obtain ⟨before, middle, found, left, rfl, hmoment, hleft, hleads⟩ :=
            ih hfirst hearlier hmade
          obtain rfl : mailbox = left := Option.some.inj (hat.symm.trans hleft)
          exact ⟨before, _, found, _, List.append_assoc _ _ _, hmoment, hlater,
            hleads.concat access⟩
      · rw [hgains.own_of_ne (Ne.symm hdoer)] at hown
        obtain ⟨before, middle, found, left, rfl, hmoment, hleft, hleads⟩ :=
          ih hsome haccesses hown
        have hinside := hpast.inside hopens haccesses hown
        exact ⟨before, _, found, left, List.append_assoc _ _ _, hmoment,
          hpast.untouched (.move hpast hmove) hmove.after hgains hinside hdoer hleft, hleads⟩

/-- What an operation leaves when it gives the lock back is what it found when it had taken it,
served with its request. -/
theorem passage {operation : Operation} {rest : List Happening} (hrun : Runs {} history world flows)
    (hopens : Opens target opening) (hinSection : InSection target operation steps)
    (hown : (Journal.ofHistory history).own number =
      (opening ++ steps) ++ .acted (.release (.queue target)) () :: rest) :
    ∃ before middle place after found left,
      history = (before ++ middle) ++ (place, .acted (.release (.queue target)) ()) :: after ∧
        Moment target number opening before found ∧
          Moment target number (opening ++ steps) (before ++ middle) left ∧
            (Journal.ofHistory (before ++ middle)).Gains
                (.ofHistory ((before ++ middle) ++
                  [(place, .acted (.release (.queue target)) ())])) number
                (.acted (.release (.queue target)) ()) ∧
              left = found.serving (Request.of? target operation) ∧
                visits target steps = found.visited operation := by
  obtain ⟨earlier, place, after, rfl, hmade, hgains⟩ := hrun.moment_of_own hown
  obtain ⟨past, pastFlows, hpast⟩ := hrun.beginning
  obtain ⟨hsome, haccesses⟩ := accesses_of_inSection hinSection
  obtain ⟨before, middle, found, left, rfl, hmoment, hleft, hleads⟩ :=
    hpast.leads hopens hsome haccesses hmade
  obtain ⟨hserved, hvisited⟩ := serving_of_leads hinSection hleads
  exact ⟨before, middle, place, after, found, left, rfl, hmoment, ⟨hmade, past, _, hpast, hleft⟩,
    hgains, hserved, hvisited⟩

/-- Whoever asks for slots gets them, -/
theorem replenish_ready {mailbox : Mailbox} (hrun : Runs {} history world flows)
    (hmailbox : world.mailboxAt? target = some mailbox) :
    (mailbox.access .replenish).1 = true := by
  obtain ⟨_, hupkeep⟩ := hrun.account (sections_obeyed target) (upkeep_upholds target)
  have hroom := Slots.allocatable_replenished (hupkeep.allocatable mailbox hmailbox)
  simp [access, hroom]

/-- and whoever has asked has got them. -/
theorem replenish_given (hrun : Runs {} history world flows) (target : Ref .mailbox) :
    .acted (.mailbox target .replenish) false ∉ history.map Prod.snd := by
  intro hmem
  obtain ⟨⟨index, _⟩, hentry, rfl⟩ := List.mem_map.mp hmem
  obtain ⟨before, after, rfl⟩ := List.append_of_mem hentry
  obtain ⟨past, _, _, hbefore, hafter⟩ := hrun.moment
  generalize hanswer : false = answer at hafter
  cases World.effect_of_perform? hafter with
  | @mailbox _ object _ hobject =>
      rw [hbefore.replenish_ready hobject] at hanswer
      cases hanswer

end Runs

end CoreEngines
