import CoreEngines.Proofs.Chronicles
import CoreEngines.Proofs.Mailbox.Sections
import Mathlib.Data.List.Infix

/-!
Stories of a mailbox.  An operation that ordinary code calls looks at the mailbox from outside, if
it does, masks interrupts, goes through one section and restores them.  So it can fail at two points
only, and at both it has the lock no more or not yet.
-/

namespace CoreEngines

open Program

/-- Whether ordinary code does this to a mailbox, which masks interrupts for it. -/
def Operation.Defers (target : Ref .mailbox) (operation : Operation) : Prop :=
  operation.mailbox? = some target ∧ operation.fromInterrupt = false

def Operation.Drains (target : Ref .mailbox) : Operation → Prop
  | drain mailbox | drainLocked mailbox => mailbox = target
  | _ => False

namespace Mailbox

/-- What an operation does inside of its section. -/
inductive InSection (target : Ref .mailbox) : Operation → List Happening → Prop
  | push (message : Message) (length : Nat) :
      InSection target (.push target message) [.acted (.mailbox target (.append message)) length,
        .acted (.mailbox target (.publish length)) ()]
  | capacity (slots : Nat) :
      InSection target (.capacity target) [.acted (.mailbox target .slots) slots]
  | vacant {operation : Operation} (hdrains : operation.Drains target) :
      InSection target operation [.acted (.mailbox target .length) (0 : Nat)]
  | full {operation : Operation} {length : Nat} (hdrains : operation.Drains target)
      (hlength : length ≠ 0) (messages : Array Message) :
      InSection target operation [.acted (.mailbox target .length) length,
        .acted (.mailbox target .detach) messages, .acted (.mailbox target .replenish) true,
        .acted (.mailbox target (.publish 0)) ()]

/-- What an operation does before it masks interrupts: nothing, or it sees that there is a
message. -/
inductive Looks (target : Ref .mailbox) : List Happening → Prop
  | blind : Looks target []
  | glance {queued : Nat} (hqueued : queued ≠ 0) :
      Looks target [.acted (.mailbox target .peek) queued]

/-- What an operation has done by the time it calls out: it is about to take the lock, or it has
given it back. -/
inductive Asks (target : Ref .mailbox) (operation : Operation) : List Happening → Callback → Prop
  | masking {looks : List Happening} (hlooks : Looks target looks) :
      Asks target operation looks .mask
  | restoring {looks steps : List Happening} (hlooks : Looks target looks) (previous : Bool)
      (hinSection : InSection target operation steps) :
      Asks target operation (looks ++ .answered .mask (.ok previous) ::
        .acted (.acquire (.queue target)) () :: (steps ++ [.acted (.release (.queue target)) ()]))
        (.restore previous)

/-- All that an operation can do from its start to its return, and whether it fails. -/
inductive Course (target : Ref .mailbox) (operation : Operation) :
    List Happening → Except Failure Unit → Prop
  | glanced : Course target operation [.acted (.mailbox target .peek) (0 : Nat)] (.ok ())
  | stopped {made : List Happening} {callback : Callback}
      (hasks : Asks target operation made callback) (failure : Failure) :
      Course target operation (made ++ [.answered callback (.error failure)]) (.error failure)
  | visited {made late : List Happening} {previous : Bool}
      (hasks : Asks target operation made (.restore previous))
      (hlate : ∀ happening ∈ late, ∃ event, happening = .reported event) :
      Course target operation (made ++ .answered (.restore previous) (.ok ()) :: late) (.ok ())
  /-- The slots could not be had. -/
  | short {looks : List Happening} {length : Nat} {failure : Failure} (hlooks : Looks target looks)
      (previous : Bool) (messages : Array Message) (restoring : Except Failure Unit) :
      Course target operation ((looks ++ [.answered .mask (.ok previous),
        .acted (.acquire (.queue target)) (), .acted (.mailbox target .length) length,
        .acted (.mailbox target .detach) messages, .acted (.mailbox target .replenish) false,
        .acted (.release (.queue target)) ()]) ++ [.answered (.restore previous) restoring])
        (.error failure)

/-- The place of a step of a kind that comes once can be told from the story. -/
theorem split_of_once {α : Type} {P : α → Prop} {early late left right : List α} {first second : α}
    (hleft : ∀ step ∈ left, ¬ P step) (hright : ∀ step ∈ right, ¬ P step) (hfirst : P first)
    (hpart : early ++ first :: late <+: left ++ second :: right) :
    early = left ∧ first = second ∧ late <+: right := by
  induction left generalizing early with
  | nil =>
      cases early with
      | nil => exact ⟨rfl, List.cons_prefix_cons.mp hpart⟩
      | cons step early =>
          obtain ⟨_, hrest⟩ := List.cons_prefix_cons.mp hpart
          exact absurd hfirst (hright first (hrest.mem (by simp)))
  | cons step left ih =>
      cases early with
      | nil =>
          obtain ⟨rfl, _⟩ := List.cons_prefix_cons.mp hpart
          exact absurd hfirst (hleft first List.mem_cons_self)
      | cons other early =>
          obtain ⟨rfl, hrest⟩ := List.cons_prefix_cons.mp hpart
          obtain ⟨rfl, hsame, hlate⟩ := ih (fun step hmem => hleft step (by simp [hmem])) hrest
          exact ⟨rfl, hsame, hlate⟩

section
variable {target : Ref .mailbox} {operation : Operation} {story : List Happening}

def outcome {α : Type} (result : Except Failure α) : Except Failure Unit :=
  result.map fun _ => ()

theorem eq_of_outcome {α : Type} {result : Except Failure α} {failure : Failure}
    (houtcome : outcome result = .error failure) : result = .error failure := by
  cases result with
  | ok value => cases houtcome
  | error other =>
      cases houtcome
      rfl

/-- What an operation does that goes through a masked section, and reports what has come of it. -/
theorem course_of_section {α : Type} {body : Program α} {looks late : List Happening}
    {result : Except Failure α} (hlooks : Looks target looks)
    (hbody : ∀ {steps value}, body.Tells steps (.ok value) → InSection target operation steps)
    (hshort : ∀ {steps failure}, body.Tells steps (.error failure) → ∃ length messages,
      steps = [.acted (.mailbox target .length) (length : Nat),
        .acted (.mailbox target .detach) messages, .acted (.mailbox target .replenish) false])
    (htells : (masked (locked (.queue target) body)).Tells story result)
    (hlate : ∀ happening ∈ late, ∃ event, happening = .reported event)
    (hfails : ∀ failure, result = .error failure → late = []) :
    Course target operation (looks ++ (story ++ late)) (outcome result) := by
  rcases tells_masked htells with ⟨failure, rfl, rfl⟩ |
    ⟨previous, inside, middle, restoring, hinside, rfl, hresult⟩
  · rw [hfails failure rfl]
    exact .stopped (.masking hlooks) failure
  · obtain ⟨steps, hsteps, rfl⟩ := (tells_locked _ _ _ _).mp hinside
    cases middle with
    | ok value =>
        have hasks := Asks.restoring hlooks previous (hbody hsteps)
        cases restoring with
        | ok _ =>
            obtain rfl := hresult
            simpa [outcome, Except.map] using Course.visited hasks hlate
        | error failure =>
            obtain rfl := hresult
            rw [hfails failure rfl]
            simpa [outcome, Except.map] using Course.stopped hasks failure
    | error failure =>
        obtain ⟨length, messages, rfl⟩ := hshort hsteps
        obtain ⟨other, rfl⟩ : ∃ other, result = .error other := by
          cases restoring with
          | ok _ => exact ⟨failure, hresult⟩
          | error _ => exact ⟨.aborted, hresult⟩
        rw [hfails other rfl]
        simpa [outcome, Except.map] using Course.short hlooks previous messages restoring

theorem course_of_push {message : Message} {result : Except Failure Unit}
    (htells : (push target message).Tells story result) :
    Course target (.push target message) story (outcome result) := by
  rw [← List.append_nil story]
  refine course_of_section .blind (fun hbody => ?_) (fun hbody => ?_) htells
    (List.forall_mem_nil _) fun _ _ => rfl
  · obtain ⟨length, _, rfl, hpublish⟩ := (tells_perform_bind _ _ _ _).mp hbody
    obtain ⟨_, rfl, _⟩ := (tells_perform _ _ _).mp hpublish
    exact .push message length
  · obtain ⟨_, _, _, hpublish⟩ := (tells_perform_bind _ _ _ _).mp hbody
    obtain ⟨_, _, hfails⟩ := (tells_perform _ _ _).mp hpublish
    cases hfails

theorem course_of_capacity {result : Except Failure Nat}
    (htells : (capacity target).Tells story result) :
    Course target (.capacity target) story (outcome result) := by
  rw [← List.append_nil story]
  refine course_of_section .blind (fun hbody => ?_) (fun hbody => ?_) htells
    (List.forall_mem_nil _) fun _ _ => rfl
  · obtain ⟨slots, rfl, _⟩ := (tells_perform _ _ _).mp hbody
    exact .capacity slots
  · obtain ⟨_, _, hfails⟩ := (tells_perform _ _ _).mp hbody
    cases hfails

/-- Inside of its section a drain takes all messages, or finds none, or fails for want of slots. -/
theorem inSection_of_detachAll {result : Except Failure (Array Message)}
    (hdrains : operation.Drains target) (htells : (detachAll target).Tells story result) :
    match result with
    | .ok _ => InSection target operation story
    | .error _ => ∃ length messages,
        story = [.acted (.mailbox target .length) (length : Nat),
          .acted (.mailbox target .detach) messages,
          .acted (.mailbox target .replenish) false] := by
  obtain ⟨length, _, rfl, hsized⟩ := (tells_perform_bind _ _ _ _).mp htells
  by_cases hlength : length = 0
  · subst hlength
    obtain ⟨rfl, rfl⟩ := hsized
    exact .vacant hdrains
  · simp only [if_neg hlength] at hsized
    obtain ⟨messages, _, rfl, hdetached⟩ := (tells_perform_bind _ _ _ _).mp hsized
    obtain ⟨replenished, _, rfl, hended⟩ := (tells_perform_bind _ _ _ _).mp hdetached
    cases replenished with
    | true =>
        obtain ⟨_, _, rfl, rfl, rfl⟩ := (tells_perform_bind _ _ _ _).mp hended
        exact .full hdrains hlength messages
    | false =>
        obtain ⟨rfl, rfl⟩ := hended
        exact ⟨length, messages, rfl⟩

theorem course_of_drainLocked {looks : List Happening} {result : Except Failure (Array Message)}
    (hlooks : Looks target looks) (hdrains : operation.Drains target)
    (htells : (drainLocked target).Tells story result) :
    Course target operation (looks ++ story) (outcome result) := by
  rcases (tells_bind _ _ _ _).mp htells with ⟨first, messages, late, hfirst, hlate, rfl⟩ |
    ⟨failure, hfails, rfl⟩
  · obtain ⟨hreports, hok⟩ : (∀ happening ∈ late, ∃ event, happening = .reported event) ∧
        result = .ok messages := by
      split at hlate
      · obtain ⟨rfl, rfl⟩ := hlate
        exact ⟨List.forall_mem_nil _, rfl⟩
      · obtain ⟨_, rfl, rfl, rfl⟩ := hlate
        exact ⟨List.forall_mem_singleton.mpr ⟨_, rfl⟩, rfl⟩
    subst hok
    exact course_of_section hlooks (inSection_of_detachAll hdrains) (inSection_of_detachAll hdrains)
      hfirst hreports nofun
  · rw [← List.append_nil story]
    exact course_of_section hlooks (inSection_of_detachAll hdrains) (inSection_of_detachAll hdrains)
      hfails (List.forall_mem_nil _) fun _ _ => rfl

/-- All that an operation does to a mailbox that ordinary code calls. -/
theorem course_of_tells {result : Except Failure operation.Reply}
    (hdefers : operation.Defers target) (htells : operation.program.Tells story result) :
    Course target operation story (outcome result) := by
  obtain ⟨hmailbox, hordinary⟩ := hdefers
  cases operation with
  | push mailbox message =>
      cases hmailbox
      exact course_of_push htells
  | drain mailbox =>
      cases hmailbox
      obtain ⟨queued, late, rfl, hlate⟩ := (tells_perform_bind _ _ _ _).mp htells
      by_cases hqueued : queued = 0
      · subst hqueued
        obtain ⟨rfl, rfl⟩ := hlate
        exact .glanced
      · simp only [if_neg hqueued] at hlate
        exact course_of_drainLocked (.glance hqueued) rfl hlate
  | drainLocked mailbox =>
      cases hmailbox
      exact course_of_drainLocked .blind rfl htells
  | capacity mailbox =>
      cases hmailbox
      exact course_of_capacity htells
  | pushFromInterrupt _ _ => cases hordinary
  | _ => cases hmailbox

theorem straight_of_defers (hdefers : operation.Defers target) : operation.Straight :=
  (Operation.program_confined hdefers.1).mono fun happening hconfines procedure hcalled => by
    subst hcalled
    exact hconfines

/-- In every run each of these operations is on its course. -/
theorem course_of_runs {start world : World} {history : History} {flows : Nat → Flow}
    {number : Nat} (hrun : Runs start history world flows) (hdefers : operation.Defers target)
    (hown : (Journal.ofHistory history).own number = .started operation :: story) :
    ∃ whole result, Course target operation whole (outcome result) ∧
      story <+: whole ++ [.finished operation result] := by
  obtain ⟨whole, result, htells, hstory⟩ := hrun.tells (straight_of_defers hdefers) hown
  exact ⟨whole, result, course_of_tells hdefers htells, hstory⟩

theorem calm_of_looks {looks : List Happening} (hlooks : Looks target looks) :
    ∀ step ∈ looks, ¬ step.fails := by
  cases hlooks <;> simp [Happening.fails]

theorem calm_of_asks {made : List Happening} {callback : Callback}
    (hasks : Asks target operation made callback) : ∀ step ∈ made, ¬ step.fails := by
  cases hasks with
  | masking hlooks => exact calm_of_looks hlooks
  | restoring hlooks previous hinSection =>
      simp only [List.forall_mem_append, List.forall_mem_cons]
      refine ⟨calm_of_looks hlooks, nofun, nofun, ?_, nofun, List.forall_mem_nil _⟩
      cases hinSection <;> simp [Happening.fails]

theorem eq_of_calm {made late : List Happening} {step last : Happening}
    (hmade : ∀ step ∈ made, ¬ step.fails) (hlate : ∀ step ∈ late, ¬ step.fails)
    (hmem : step ∈ made ++ last :: late) (hfails : step.fails) : step = last := by
  rcases List.mem_append.mp hmem with hmem | hmem
  · exact absurd hfails (hmade step hmem)
  · exact (List.mem_cons.mp hmem).resolve_right fun hmem => hlate step hmem hfails

/-- A callback that fails is the last thing that happens.  By then the operation has done what it
had to do, or has asked for slots in vain. -/
theorem asks_of_course {whole : List Happening} {ends : Except Failure Unit} {callback : Callback}
    {failure : Failure} (hcourse : Course target operation whole ends)
    (hmem : .answered callback (.error failure) ∈ whole) :
    ∃ made, whole = made ++ [.answered callback (.error failure)] ∧ (∀ step ∈ made, ¬ step.fails) ∧
      (.acted (.mailbox target .replenish) false ∈ made ∨
        ends = .error failure ∧ Asks target operation made callback) := by
  cases hcourse with
  | glanced => simp at hmem
  | stopped hasks other =>
      cases eq_of_calm (calm_of_asks hasks) (List.forall_mem_nil _) hmem rfl
      exact ⟨_, rfl, calm_of_asks hasks, Or.inr ⟨rfl, hasks⟩⟩
  | visited hasks hlate =>
      refine nomatch eq_of_calm (calm_of_asks hasks) (fun step hstep => ?_) hmem rfl
      obtain ⟨event, rfl⟩ := hlate step hstep
      exact nofun
  | @short looks length _ hlooks previous messages =>
      have hcalm : ∀ step ∈ looks ++ [.answered .mask (.ok previous),
          .acted (.acquire (.queue target)) (), .acted (.mailbox target .length) length,
          .acted (.mailbox target .detach) messages, .acted (.mailbox target .replenish) false,
          .acted (.release (.queue target)) ()], ¬ step.fails := by
        rw [List.forall_mem_append]
        exact ⟨calm_of_looks hlooks, by simp [Happening.fails]⟩
      cases eq_of_calm hcalm (List.forall_mem_nil _) hmem rfl
      exact ⟨_, rfl, hcalm, Or.inl (by simp)⟩

/-- An operation fails only with a callback, unless it asks for slots in vain. -/
theorem asked_of_course {whole : List Happening} {failure : Failure}
    (hcourse : Course target operation whole (.error failure))
    (hgiven : .acted (.mailbox target .replenish) false ∉ whole) :
    ∃ callback, .answered callback (.error failure) ∈ whole := by
  cases hcourse with
  | @stopped _ callback => exact ⟨callback, by simp⟩
  | short => exact absurd (by simp) hgiven

def Detaches (target : Ref .mailbox) (happening : Happening) : Prop :=
  ∃ messages, happening = .acted (.mailbox target .detach) messages

/-- Whoever has taken messages away goes on with the slots for the next ones, and then publishes
that there are none. -/
theorem resets_of_asks {early late made rest : List Happening} {messages : Array Message}
    {callback : Callback} (hasks : Asks target operation made callback)
    (hrest : ∀ happening ∈ rest, ¬ Detaches target happening)
    (hstory : early ++ .acted (.mailbox target .detach) messages :: late <+: made ++ rest) :
    late.take 2 <+: [.acted (.mailbox target .replenish) true,
      .acted (.mailbox target (.publish 0)) ()] := by
  have hlooked : ∀ {looks : List Happening}, Looks target looks →
      ∀ happening ∈ looks, ¬ Detaches target happening := by
    intro looks hlooks
    cases hlooks <;> simp [Detaches]
  have htakes : ¬ ∀ happening ∈ made, ¬ Detaches target happening := by
    intro hmade
    have hmem := hstory.mem (List.mem_append_right early List.mem_cons_self)
    exact List.forall_mem_append.mpr ⟨hmade, hrest⟩ _ hmem ⟨messages, rfl⟩
  cases hasks with
  | masking hlooks => exact absurd (hlooked hlooks) htakes
  | @restoring looks _ hlooks previous hinSection =>
      simp only [List.forall_mem_append, List.forall_mem_cons] at htakes
      cases hinSection with
      | @full _ length _ _ found =>
          have hsplit : early ++ .acted (.mailbox target .detach) messages :: late <+:
              (looks ++ [.answered .mask (.ok previous), .acted (.acquire (.queue target)) (),
                .acted (.mailbox target .length) length]) ++
                  .acted (.mailbox target .detach) found ::
                    (.acted (.mailbox target .replenish) true ::
                      .acted (.mailbox target (.publish 0)) () ::
                        .acted (.release (.queue target)) () :: rest) := by
            simpa using hstory
          refine (split_of_once (P := Detaches target) ?_ ?_ ⟨messages, rfl⟩ hsplit).2.2.take 2
          · rw [List.forall_mem_append]
            exact ⟨hlooked hlooks, by simp [Detaches]⟩
          · simp only [List.forall_mem_cons]
            exact ⟨by simp [Detaches], by simp [Detaches], by simp [Detaches], hrest⟩
      | _ => exact absurd ⟨hlooked hlooks, by simp [Detaches]⟩ htakes

/-- Nobody who takes messages away is interrupted before it is published that there are none:
whoever has taken them has slots for the next ones as soon as it goes on, and publishes at once. -/
theorem resets_of_course {early late whole : List Happening} {messages : Array Message}
    {ends : Except Failure Unit} {result : Except Failure operation.Reply}
    (hcourse : Course target operation whole ends)
    (hstory : early ++ .acted (.mailbox target .detach) messages :: late <+:
      whole ++ [.finished operation result])
    (hgiven : .acted (.mailbox target .replenish) false ∉ late) :
    late.take 2 <+: [.acted (.mailbox target .replenish) true,
      .acted (.mailbox target (.publish 0)) ()] := by
  cases hcourse with
  | glanced =>
      have hmem := hstory.mem (List.mem_append_right early List.mem_cons_self)
      simp at hmem
  | stopped hasks failure =>
      rw [List.append_assoc] at hstory
      exact resets_of_asks hasks (by simp [Detaches]) hstory
  | visited hasks hreports =>
      rw [List.append_assoc] at hstory
      refine resets_of_asks hasks ?_ hstory
      simp only [List.cons_append, List.forall_mem_cons, List.forall_mem_append]
      refine ⟨by simp [Detaches], fun happening hmem => ?_, by simp [Detaches]⟩
      obtain ⟨event, rfl⟩ := hreports happening hmem
      simp [Detaches]
  | @short looks length failure hlooks previous found restoring =>
      have hwhole : early ++ .acted (.mailbox target .detach) messages :: late <+:
          (looks ++ [.answered .mask (.ok previous), .acted (.acquire (.queue target)) (),
            .acted (.mailbox target .length) length]) ++
            .acted (.mailbox target .detach) found ::
              [.acted (.mailbox target .replenish) false, .acted (.release (.queue target)) (),
                .answered (.restore previous) restoring, .finished operation result] := by
        simpa using hstory
      have hlate := (split_of_once (P := Detaches target) (by cases hlooks <;> simp [Detaches])
        (by simp [Detaches]) ⟨messages, rfl⟩ hwhole).2.2
      rcases List.prefix_cons_iff.mp hlate with rfl | ⟨rest, rfl, _⟩
      · exact List.nil_prefix
      · exact absurd List.mem_cons_self hgiven

end

end Mailbox

end CoreEngines
