import CoreEngines.Proofs.Mailbox.Reaching
import CoreEngines.Proofs.Moments

/-!
The order of arrival.  A run puts the requests on a mailbox in the order in which they reach its
queue; each does so once, at a moment of its own, and what is in that order stays in it.
-/

namespace CoreEngines

open Mailbox

namespace Journal

def request? (target : Ref .mailbox) (journal : Journal) (number : Nat) : Option Request :=
  match journal.own number with
  | .started operation :: _ => Request.of? target operation
  | _ => none

/-- The operations whose requests have reached the queue, in the order in which they have. -/
def reachers (target : Ref .mailbox) (journal : Journal) : List Nat :=
  (journal.deeds fun happening => if happening.reaches target then some () else none).map Prod.fst

def requests (target : Ref .mailbox) (journal : Journal) (numbers : List Nat) : List Request :=
  numbers.filterMap (journal.request? target)

section
variable {target : Ref .mailbox} {journal journal' : Journal} {number other : Nat}
  {happening : Happening}

theorem request?_of_own {operation : Operation} {story : List Happening}
    (hown : journal.own number = .started operation :: story) :
    journal.request? target number = Request.of? target operation := by
  rw [request?, hown]

theorem mem_reachers :
    number ∈ journal.reachers target ↔
      ∃ happening ∈ journal.own number, happening.reaches target := by
  rw [reachers, List.mem_map]
  constructor
  · rintro ⟨⟨_, _⟩, hdeed, rfl⟩
    obtain ⟨happening, hmem, hsome⟩ := mem_deeds.mp hdeed
    exact ⟨happening, hmem, (Option.ite_none_right_eq_some.mp hsome).1⟩
  · rintro ⟨happening, hmem, hreaches⟩
    exact ⟨(number, ()), mem_deeds.mpr ⟨happening, hmem, if_pos hreaches⟩, rfl⟩

theorem Gains.reachers (hgains : journal.Gains journal' number happening) :
    journal'.reachers target =
      journal.reachers target ++ if happening.reaches target then [number] else [] := by
  rw [Journal.reachers, hgains.deeds, List.map_append]
  split <;> rfl

theorem request?_of_prefix (hlonger : journal.own number <+: journal'.own number)
    (hsome : journal.own number ≠ []) :
    journal'.request? target number = journal.request? target number := by
  obtain ⟨rest, hrest⟩ := hlonger
  obtain ⟨first, story, hown⟩ := List.exists_cons_of_ne_nil hsome
  rw [request?, request?, ← hrest, hown, List.cons_append]
  cases first <;> rfl

theorem requests_of_prefix {numbers : List Nat}
    (hlonger : ∀ number, journal.own number <+: journal'.own number)
    (hnumbers : ∀ number ∈ numbers, number ∈ journal.reachers target) :
    journal'.requests target numbers = journal.requests target numbers := by
  apply List.filterMap_congr
  intro number hnumber
  obtain ⟨happening, hmem, _⟩ := mem_reachers.mp (hnumbers number hnumber)
  exact request?_of_prefix (hlonger number) (List.ne_nil_of_mem hmem)

/-- The requests that have reached the queue, in the order in which they have. -/
def arrived (target : Ref .mailbox) (journal : Journal) : List Request :=
  journal.requests target (journal.reachers target)

theorem Gains.own_continues (hgains : journal.Gains journal' number happening) (other : Nat) :
    journal.own other <+: journal'.own other := by
  by_cases hother : other = number
  · rw [hother, hgains.own_self]
    exact List.prefix_append _ _
  · exact (hgains.own_of_ne hother).symm ▸ List.prefix_rfl

/-- Who makes a request comes after all those who have before. -/
theorem Gains.arrived {operation : Operation} {story : List Happening}
    (hgains : journal.Gains journal' number happening)
    (hown : journal.own number = .started operation :: story) :
    journal'.arrived target = journal.arrived target ++
      if happening.reaches target then (Request.of? target operation).toList else [] := by
  have hrequest : journal'.request? target number = Request.of? target operation :=
    request?_of_own (hgains.own_self.trans (congrArg (· ++ [happening]) hown))
  rw [Journal.arrived, hgains.reachers, requests, List.filterMap_append]
  refine congrArg₂ (· ++ ·) ?_ ?_
  · exact requests_of_prefix hgains.own_continues fun number hnumber => hnumber
  · split
    · cases hfound : Request.of? target operation <;> simp [hrequest, hfound]
    · rfl

theorem reachers_append (target : Ref .mailbox) (before after : History) :
    ∃ later, (ofHistory (before ++ after)).reachers target =
      (ofHistory before).reachers target ++ later := by
  obtain ⟨later, hlater⟩ := deeds_append before after
    fun happening => if happening.reaches target then some () else none
  exact ⟨later.map Prod.fst, by rw [reachers, hlater, List.map_append]; rfl⟩

theorem requests_append (target : Ref .mailbox) (before after : History) :
    (ofHistory (before ++ after)).requests target ((ofHistory before).reachers target) =
      (ofHistory before).arrived target :=
  requests_of_prefix (own_continues before after) fun _ hnumber => hnumber

theorem Gains.arrived_of_not (hgains : journal.Gains journal' number happening)
    (hreaches : happening.reaches target = false) :
    journal'.arrived target = journal.arrived target := by
  rw [Journal.arrived, hgains.reachers, hreaches, if_neg Bool.false_ne_true, List.append_nil]
  exact requests_of_prefix hgains.own_continues fun number hnumber => hnumber

end

end Journal

theorem reaching_foldl (target : Ref .mailbox) (reacher : Reacher) (steps : List Happening) :
    steps.foldl (reaching target).observe reacher =
      ⟨reacher.operation, reacher.visits ++ visits target steps,
        reacher.reached || steps.any (·.reaches target)⟩ := by
  induction steps generalizing reacher with
  | nil => simp [visits]
  | cons happening steps ih =>
      rw [List.foldl_cons, ih]
      cases hvisit : Visit.of? target happening <;>
        simp [reaching, visits, hvisit, Bool.or_assoc]

theorem Happening.access_of_reaches {target : Ref .mailbox} {happening : Happening}
    (hreaches : happening.reaches target) : ∃ access answer,
      happening = .acted (.mailbox target access) answer ∧ access.reaches answer := by
  unfold Happening.reaches at hreaches
  split at hreaches
  case h_1 place access answer =>
    obtain ⟨hplace, haccess⟩ := Bool.and_eq_true_iff.mp hreaches
    obtain rfl : place = target := of_decide_eq_true hplace
    exact ⟨access, answer, rfl, haccess⟩
  case h_2 => cases hreaches

theorem reaching_upholds (target : Ref .mailbox) {start : World} :
    (reaching target).Upholds start fun _ _ _ => True where
  idle := trivial
  start _ _ _ _ _ := trivial
  step _ _ _ _ _ _ := ⟨trivial, fun _ => trivial⟩
  finish _ _ _ _ _ _ _ := trivial

namespace Runs

variable {start world : World} {history : History} {flows : Nat → Flow} {target : Ref .mailbox}
  {number : Nat}

theorem reaching (hrun : Runs start history world flows) (target : Ref .mailbox) :
    (Mailbox.reaching target).Account (.ofHistory history) flows :=
  (hrun.account (reaching_obeyed target) (reaching_upholds target)).1

/-- Whoever has access to a mailbox has not reached its queue before, and makes an access that it
may make. -/
theorem before_access {made rest : List Happening} {access : Access} {answer : access.Answer}
    (hrun : Runs start history world flows)
    (hown : (Journal.ofHistory history).own number =
      made ++ .acted (.mailbox target access) answer :: rest) :
    ∃ operation steps, made = .started operation :: steps ∧ operation.allots target access ∧
      (access.looks → visits target steps = []) ∧
        ∀ happening ∈ steps, happening.reaches target = false := by
  obtain ⟨before, index, after, rfl, hmade, hgains⟩ := hrun.moment_of_own hown
  obtain ⟨_, _, hpast⟩ := hrun.beginning
  have hnext : ∃ world flows, Runs start
      (before ++ [(index, .acted (.mailbox target access) answer)]) world flows := by
    rw [List.append_cons] at hrun
    exact hrun.beginning
  obtain ⟨_, _, hnext⟩ := hnext
  obtain ⟨⟨reacher, hreacher, hallows⟩, _⟩ := (hnext.reaching target).gained hgains
  obtain ⟨operation, steps, hown', _, _, rfl⟩ := (hpast.reaching target).story_of_standing hreacher
  rw [hmade] at hown'
  rw [Discipline.after, reaching_foldl] at hallows
  obtain ⟨hallots, hlooks, hbefore⟩ := hallows rfl
  refine ⟨operation, steps, hown', hallots, hlooks, ?_⟩
  simpa [Mailbox.reaching] using hbefore

/-- No operation reaches the queue twice. -/
theorem reachers_nodup (hrun : Runs start history world flows) (target : Ref .mailbox) :
    ((Journal.ofHistory history).reachers target).Nodup := by
  apply hrun.grows fun history _ => ((Journal.ofHistory history).reachers target).Nodup
  · exact List.nodup_nil
  · intro history world flows later flows' happening index number hpast hnext _ hgains hnodup
    rw [hgains.reachers]
    split
    case isTrue hreaches =>
      obtain ⟨access, answer, rfl, _⟩ := Happening.access_of_reaches hreaches
      obtain ⟨operation, steps, hown, _, _, hbefore⟩ := hnext.before_access hgains.own_self
      refine hnodup.append (List.nodup_singleton number) ?_
      rintro _ hreached hnumber
      obtain rfl := List.mem_singleton.mp hnumber
      obtain ⟨happening, hmem, hreaches⟩ := Journal.mem_reachers.mp hreached
      rw [hown] at hmem
      rcases List.mem_cons.mp hmem with rfl | hmem
      · cases hreaches
      · rw [hbefore happening hmem] at hreaches
        cases hreaches
    case isFalse => rwa [List.append_nil]

/-- An operation whose request has reached the queue leaves the mailbox alone. -/
theorem visits_of_reached {made rest : List Happening} {happening : Happening}
    (hrun : Runs start history world flows)
    (hown : (Journal.ofHistory history).own number = made ++ happening :: rest)
    (hreaches : happening.reaches target) : visits target rest = [] := by
  rw [visits, List.filterMap_eq_nil_iff]
  intro later hlater
  by_contra hvisit
  obtain ⟨middle, end_, rfl⟩ := List.append_of_mem hlater
  cases later with
  | acted action answer =>
      cases action with
      | mailbox place access =>
          obtain rfl : place = target := by
            by_contra hplace
            exact hvisit (if_neg hplace)
          have hown' : (Journal.ofHistory history).own number =
              (made ++ happening :: middle) ++ .acted (.mailbox place access) answer :: end_ := by
            rw [hown, List.append_assoc, List.cons_append]
          obtain ⟨operation, steps, hmade, _, _, hbefore⟩ := hrun.before_access hown'
          have hmem : happening ∈ .started operation :: steps := by
            rw [← hmade]
            simp
          rcases List.mem_cons.mp hmem with rfl | hmem
          · cases hreaches
          · rw [hbefore happening hmem] at hreaches
            cases hreaches
      | _ => exact hvisit rfl
  | _ => exact hvisit rfl

/-- Whoever returned from a request has reached the queue. -/
theorem reached_of_finished {operation : Operation} {reply : operation.Reply}
    {story : List Happening} (hrun : Runs start history world flows)
    (hown : (Journal.ofHistory history).own number = .started operation :: story)
    (hreturned : .finished operation (.ok reply) ∈ story)
    (hrequest : (Request.of? target operation).isSome) :
    number ∈ (Journal.ofHistory history).reachers target := by
  obtain ⟨steps, rfl, _, hreturns⟩ := (hrun.reaching target).returned hown hreturned
  have hreached := hreturns hrequest
  rw [Discipline.after, reaching_foldl] at hreached
  obtain ⟨happening, hmem, hreaches⟩ : ∃ happening ∈ steps, happening.reaches target := by
    simpa [Mailbox.reaching] using hreached
  refine Journal.mem_reachers.mpr ⟨happening, ?_, hreaches⟩
  rw [hown]
  exact List.mem_cons_of_mem _ (List.mem_append_left _ hmem)

end Runs

end CoreEngines
