import CoreEngines.Proofs.Mailbox.Upkeep
import CoreEngines.Proofs.Schedules

/-!
Delivery of messages, as a whole run tells it.  Every message that a mailbox has accepted comes out
once and in its turn, whatever the cores do at the same time and whatever handlers run between.
-/

namespace CoreEngines

open Mailbox

/-- What an operation has done with a mailbox so far, as its own story tells. -/
structure Operation.Dealings (target : Ref .mailbox) (operation : Operation)
    (story : List Happening) : Prop where
  /-- The visits are made inside of locked sections, which are gone through in order. -/
  sections : (story.foldlM (Hold.next? target) .away).isSome
  visits : operation.Visits target (visits target story)
  /-- What is called by handlers never asks for slots. -/
  getsBy : ∀ happening ∈ story, operation.GetsBy target happening
  returned : operation.mailbox? = some target → ∀ reply, .finished operation (.ok reply) ∈ story →
    operation.Visited (Mailbox.visits target story) reply
  failed : operation.mailbox? = some target → ∀ failure,
    .finished operation (.error failure) ∈ story →
      ∃ callback cause, .answered callback (.error cause) ∈ story

namespace Mailbox

variable {target : Ref .mailbox}

theorem sections_foldl (target : Ref .mailbox) (visitor : Visitor) (steps : List Happening) :
    (steps.foldl (sections target).observe visitor).operation = visitor.operation ∧
      (steps.foldl (sections target).observe visitor).visits =
          visitor.visits ++ visits target steps ∧
        (steps.foldl (sections target).observe visitor).failed =
          (visitor.failed || steps.any Happening.fails) := by
  induction steps generalizing visitor with
  | nil => simp [visits]
  | cons happening steps ih =>
      obtain ⟨hoperation, hvisits, hfailed⟩ := ih ((sections target).observe visitor happening)
      refine ⟨hoperation, ?_, ?_⟩
      · rw [List.foldl_cons, hvisits]
        cases hvisit : Visit.of? target happening <;> simp [sections, visits, hvisit]
      · rw [List.foldl_cons, hfailed]
        simp [sections, Bool.or_assoc]

theorem sections_keeps {visitor : Visitor} {steps : List Happening}
    (hkeeps : (sections target).Keeps visitor steps)
    (hvisits : visitor.operation.Visits target visitor.visits) :
    steps.foldlM (Hold.next? target) visitor.hold =
        some (steps.foldl (sections target).observe visitor).hold ∧
      visitor.operation.Visits target (visitor.visits ++ visits target steps) ∧
        ∀ happening ∈ steps, visitor.operation.GetsBy target happening := by
  induction steps generalizing visitor with
  | nil => simpa [visits] using hvisits
  | cons happening steps ih =>
      obtain ⟨⟨hnext, hvisit, hgets⟩, hkeeps⟩ := hkeeps
      obtain ⟨hold, hnext⟩ := Option.isSome_iff_exists.mp hnext
      obtain ⟨hfold, hmade, hall⟩ := ih hkeeps hvisit
      refine ⟨?_, ?_, ?_⟩
      · rw [List.foldlM_cons, hnext]
        simpa [sections, hnext] using hfold
      · have hsame : visitor.visits ++ (Visit.of? target happening).toList ++
            visits target steps = visitor.visits ++ visits target (happening :: steps) := by
          cases hof : Visit.of? target happening <;> simp [visits, hof]
        exact hsame ▸ hmade
      · intro other hother
        rcases List.mem_cons.mp hother with rfl | hother
        · exact hgets
        · exact hall other hother

/-- How an operation in progress stands to the queue is told by its story. -/
theorem holding_of_own {journal : Journal} {flows : Nat → Flow} {number : Nat}
    {operation : Operation} {steps : List Happening}
    (haccount : (sections target).Account journal flows)
    (hown : journal.own number = .started operation :: steps)
    (hsteps : ∀ happening ∈ steps, happening.isStep) :
    steps.foldlM (Hold.next? target) .away =
      some (holding ((sections target).standing journal) number) := by
  have hstate : (sections target).standing journal number =
      some ((sections target).after operation steps) :=
    Discipline.standing_of_own hown hsteps
  obtain ⟨_, _, hsame, _, hkeeps, hafter⟩ := haccount.story_of_standing hstate
  cases hown.symm.trans hsame
  rw [holding, hstate]
  exact (sections_keeps hkeeps (Or.inl rfl)).1

/-- Every operation of a run has dealt with the mailbox as it should. -/
theorem dealings {journal : Journal} {flows : Nat → Flow} {number : Nat}
    (haccount : (sections target).Account journal flows) (hnumber : number < journal.started) :
    ∃ operation story, journal.own number = .started operation :: story ∧
      operation.Dealings target story := by
  obtain ⟨operation, steps, hsteps, hkeeps, hend⟩ := haccount.story hnumber
  obtain ⟨hfold, hvisits, hgets⟩ := sections_keeps hkeeps (Or.inl rfl)
  obtain ⟨_, hmade, hfailed⟩ := sections_foldl target ((sections target).start operation) steps
  rcases hend with hown | ⟨result, hown, _, _, hreturns⟩
  · have hrunning : ∀ result : Except Failure operation.Reply,
        .finished operation result ∉ steps := fun result hmem => by
      cases hsteps _ hmem
    exact ⟨operation, steps, hown, Option.isSome_of_eq_some hfold, hvisits, hgets,
      fun _ reply hmem => absurd hmem (hrunning _), fun _ failure hmem => absurd hmem (hrunning _)⟩
  · have hlast : ∀ other : Except Failure operation.Reply,
        .finished operation other ∈ steps ++ [Happening.finished operation result] →
          other = result := by
      intro other hmem
      rcases List.mem_append.mp hmem with hmem | hmem
      · cases hsteps _ hmem
      · cases List.mem_singleton.mp hmem
        rfl
    have hstory : visits target (steps ++ [Happening.finished operation result]) =
        visits target steps := by
      rw [visits, List.filterMap_append]
      exact List.append_nil _
    refine ⟨operation, _, hown, ?_, hstory ▸ hvisits, ?_, ?_, ?_⟩
    · rw [List.foldlM_append, show steps.foldlM (Hold.next? target) .away = some _ from hfold]
      rfl
    · intro happening hmem
      rcases List.mem_append.mp hmem with hmem | hmem
      · exact hgets happening hmem
      · rw [List.mem_singleton.mp hmem]
        exact fun _ => rfl
    · intro hmailbox reply hmem
      obtain rfl := hlast _ hmem
      have hvisited : operation.Visited ((sections target).after operation steps).visits reply :=
        hreturns hmailbox
      rw [Discipline.after, hmade] at hvisited
      rw [hstory]
      exact hvisited
    · intro hmailbox failure hmem
      obtain rfl := hlast _ hmem
      have hcause : ((sections target).after operation steps).failed := hreturns hmailbox
      rw [Discipline.after, hfailed, Bool.or_eq_true, List.any_eq_true] at hcause
      obtain hstart | ⟨happening, hmem, hfails⟩ := hcause
      · cases hstart
      · obtain ⟨callback, cause, rfl⟩ := Happening.answered_of_fails hfails
        exact ⟨callback, cause, List.mem_append_left _ hmem⟩

theorem dealings_of_own {journal : Journal} {flows : Nat → Flow} {number : Nat}
    {operation : Operation} {story : List Happening}
    (haccount : (sections target).Account journal flows)
    (hown : journal.own number = .started operation :: story) :
    operation.Dealings target story := by
  obtain ⟨_, _, hsame, hdealings⟩ :=
    dealings haccount (Journal.lt_started_of_own haccount.sound hown)
  rw [hown] at hsame
  cases hsame
  exact hdealings

/-- The state of a mailbox after a run, told by what happened in it. -/
structure Delivers (target : Ref .mailbox) (mailbox : Mailbox) (machine : Machine)
    (history : History) : Prop where
  /-- What the drains have taken, in the order of their sections, and then what is queued, is all
  that was accepted, in the order in which it came. -/
  inOrder : taken (visits target (history.map Prod.snd)) ++ mailbox.queue.toList =
    accepted (visits target (history.map Prod.snd))
  /-- Everything that happened belongs to the story of one operation, -/
  told : (Journal.ofHistory history).entries.map Prod.snd = history.map Prod.snd
  /-- and each of these stories is as it should be. -/
  dealings : ∀ number < (Journal.ofHistory history).started, ∃ operation story,
    (Journal.ofHistory history).own number = .started operation :: story ∧
      operation.Dealings target story
  /-- A message from a handler is accepted if a slot is free. -/
  offers : ∀ {index move machine' message answer},
    machine.move? index move = some (machine', .acted (.mailbox target (.offer message)) answer) →
      (answer.isSome ↔ mailbox.queue.size < mailbox.slots)
  /-- While no section is open, the length that is read without the lock is right, and so is the
  number of messages that were dropped. -/
  settled : .queue target ∉ machine.world.held → mailbox.queued = mailbox.queue.size ∧
    mailbox.dropped = .ofNat (refused (visits target (history.map Prod.snd))).length

/-- Delivery is in order and happens once, in every run of any number of flows. -/
theorem delivers_of_run? {count : Nat} {moves : List (Nat × Move)} {machine : Machine}
    {history : History} {mailbox : Mailbox}
    (hrun : (Machine.idle {} count).run? moves = some (machine, history))
    (hmailbox : machine.world.mailboxAt? target = some mailbox) :
    Delivers target mailbox machine history := by
  have hruns := Machine.runs_of_run? hrun
  obtain ⟨haccount, hupkeep⟩ := hruns.account (sections_obeyed target) (upkeep_upholds target)
  refine ⟨hupkeep.inOrder mailbox hmailbox, hruns.journal.2, fun number => dealings haccount,
    ?_, ?_⟩
  · intro index move machine' message answer hmove
    have hperform : machine.world.perform? _ = some (answer, machine'.world) :=
      Machine.perform?_of_move? hmove
    obtain ⟨found, hfound, rfl, _⟩ := World.perform?_mailbox hperform
    obtain rfl : found = mailbox := Option.some.inj (hfound.symm.trans hmailbox)
    by_cases hfree : found.queue.size < found.slots <;> simp [Mailbox.access, hfree]
  · intro hfree
    obtain ⟨hpublished, hcounted, _⟩ := hupkeep.free mailbox hmailbox hfree
    exact ⟨hpublished, hcounted⟩

open Schedule

/-- A handler pushes while a push waits to mask interrupts, and a drain on another core finds both
messages. -/
def handlerAmidPush : List (Nat × Move) :=
  inFlow 0 (along (.makeMailbox 1) 1 ++ [Move.start (.push ⟨0⟩ (.notification .timeoutEvent 1))] ++
    along (.pushFromInterrupt ⟨0⟩ (.notification .irqRaise 2)) 4 ++
    [Move.answer .mask (.ok true), .step]) ++
  inFlow 1 [.start (.drain ⟨0⟩), .step] ++
  inFlow 0 (steps 3 ++ [Move.answer (.restore true) (.ok ()), .finish]) ++
  inFlow 1 ([Move.answer .mask (.ok true)] ++ steps 6 ++
    [Move.answer (.restore true) (.ok ()), .step, .finish])

theorem delivers_handlerAmidPush : ∃ machine history mailbox,
    (Machine.idle {} 2).run? handlerAmidPush = some (machine, history) ∧
      machine.world.mailboxAt? ⟨0⟩ = some mailbox ∧
        taken (visits ⟨0⟩ (history.map Prod.snd)) =
            [.notification .irqRaise 2, .notification .timeoutEvent 1] ∧
          Delivers ⟨0⟩ mailbox machine history := by
  have hsome : ((Machine.idle {} 2).run? handlerAmidPush).isSome := by rfl
  obtain ⟨⟨machine, history⟩, hrun⟩ := Option.isSome_iff_exists.mp hsome
  have htaken : (((Machine.idle {} 2).run? handlerAmidPush).map fun outcome =>
      taken (visits ⟨0⟩ (outcome.2.map Prod.snd))) =
        some [.notification .irqRaise 2, .notification .timeoutEvent 1] := by rfl
  have hmailbox : (((Machine.idle {} 2).run? handlerAmidPush).bind fun outcome =>
      outcome.1.world.mailboxAt? ⟨0⟩).isSome := by rfl
  rw [hrun] at htaken hmailbox
  obtain ⟨mailbox, hmailbox⟩ := Option.isSome_iff_exists.mp hmailbox
  exact ⟨machine, history, mailbox, hrun, hmailbox, Option.some.inj htaken,
    delivers_of_run? hrun hmailbox⟩

end Mailbox

end CoreEngines
