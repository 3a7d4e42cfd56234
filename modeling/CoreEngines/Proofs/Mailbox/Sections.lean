import CoreEngines.Proofs.Footprints
import CoreEngines.Proofs.Invariants

/-!
Locked sections of a mailbox.  A section is one visit to the queue: it pushes a message, offers
one, takes all of them away, or reads off the slots.  Here each operation is followed through its
sections, up to the point where it returns.
-/

namespace CoreEngines.Mailbox

/-- What a locked section does to a mailbox. -/
inductive Visit
  | pushed (message : Message)
  | offered (message : Message) (accepted : Bool)
  | taken (messages : Array Message)
  | sized (slots : Nat)
deriving DecidableEq

namespace Visit

def accepted? : Visit → Option Message
  | pushed message | offered message true => some message
  | _ => none

def refused? : Visit → Option Message
  | offered message false => some message
  | _ => none

def messages : Visit → List Message
  | taken messages => messages.toList
  | _ => []

end Visit

/-- The visit that an access makes. -/
def Access.visit? : (access : Access) → access.Answer → Option Visit
  | .append message, _ => some (.pushed message)
  | .offer message, answer => some (.offered message answer.isSome)
  | .detach, messages => some (.taken messages)
  | .slots, found => some (.sized found)
  | _, _ => none

def Access.resizes : Access → Bool
  | .append _ | .detach | .replenish => true
  | _ => false

/-- The visit to a mailbox that a happening is, if it is one. -/
def Visit.of? (target : Ref .mailbox) : Happening → Option Visit
  | .acted (.mailbox place access) answer => if place = target then access.visit? answer else none
  | _ => none

/-- The visits to a mailbox among all that happened, in the order of the locked sections. -/
def visits (target : Ref .mailbox) (happenings : List Happening) : List Visit :=
  happenings.filterMap (Visit.of? target)

def accepted (visits : List Visit) : List Message :=
  visits.filterMap Visit.accepted?

def refused (visits : List Visit) : List Message :=
  visits.filterMap Visit.refused?

def taken (visits : List Visit) : List Message :=
  visits.flatMap Visit.messages

theorem accepted_append (first second : List Visit) :
    accepted (first ++ second) = accepted first ++ accepted second :=
  List.filterMap_append

theorem taken_append (first second : List Visit) :
    taken (first ++ second) = taken first ++ taken second :=
  List.flatMap_append

theorem accepted_concat (visits : List Visit) (visit : Visit) :
    accepted (visits ++ [visit]) = accepted visits ++ visit.accepted?.toList := by
  cases hmessage : visit.accepted? <;> simp [accepted, hmessage]

theorem refused_concat (visits : List Visit) (visit : Visit) :
    refused (visits ++ [visit]) = refused visits ++ visit.refused?.toList := by
  cases hmessage : visit.refused? <;> simp [refused, hmessage]

theorem taken_concat (visits : List Visit) (visit : Visit) :
    taken (visits ++ [visit]) = taken visits ++ visit.messages := by
  simp [taken]

/-- What a drain has visited when it has these messages in its hands. -/
def drained (messages : Array Message) : List Visit :=
  if messages = #[] then [] else [.taken messages]

/-- How an operation stands to the queue of a mailbox: away from its lock, or inside a locked
section that has come so far. -/
inductive Hold
  | away
  /-- The published length is the length of the queue. -/
  | settled
  /-- The same, and the length has been read. -/
  | measured (length : Nat)
  /-- A message came in, and the new length is still to be published. -/
  | grown (length : Nat)
  /-- A message was refused, and is still to be counted. -/
  | declined
  /-- All messages went out, and the slots with them. -/
  | emptied
  /-- There are slots again, and the length is still to be published. -/
  | restocked
deriving DecidableEq

namespace Hold

/-- What an access inside a section leads to, if it has its place there. -/
def access? : Hold → (access : Access) → access.Answer → Option Hold
  | hold, .peek, _ => some hold
  | settled, .slots, _ => some settled
  | settled, .length, length => some (measured length)
  | settled, .append _, length => some (grown length)
  | settled, .offer _, some length => some (grown length)
  | settled, .offer _, none => some declined
  | declined, .discard, _ => some settled
  | measured length, .detach, _ => if length = 0 then none else some emptied
  | emptied, .replenish, true => some restocked
  | grown length, .publish published, _ => if published = length then some settled else none
  | restocked, .publish published, _ => if published = 0 then some settled else none
  | _, _, _ => none

/-- What a step of an operation leads to, if it may do it.  The lock is taken and given back by
those who have settled, and no callback runs under it. -/
def next? (target : Ref .mailbox) (hold : Hold) : Happening → Option Hold
  | .acted (.mailbox place access) answer =>
      if place = target then hold.access? access answer else some hold
  | .acted (.acquire lock) _ =>
      if lock = .queue target then (if hold = away then some settled else none) else some hold
  | .acted (.release lock) _ =>
      if lock = .queue target then
        match hold with
        | settled | measured _ => some away
        | _ => none
      else some hold
  | .answered _ _ => if hold = away then some away else none
  | _ => some hold

/-- An access that has its place in a section, with all it leads to. -/
inductive Makes : Hold → (access : Access) → access.Answer → Hold → Prop
  | peek (hold : Hold) (queued : Nat) : Makes hold .peek queued hold
  | slots (slots : Nat) : Makes settled .slots slots settled
  | length (length : Nat) : Makes settled .length length (measured length)
  | append (message : Message) (length : Nat) :
      Makes settled (.append message) length (grown length)
  | offer (message : Message) (length : Nat) :
      Makes settled (.offer message) (some length) (grown length)
  | decline (message : Message) : Makes settled (.offer message) none declined
  | discard : Makes declined .discard () settled
  | detach {length : Nat} (messages : Array Message) (hlength : length ≠ 0) :
      Makes (measured length) .detach messages emptied
  | replenish : Makes emptied .replenish true restocked
  | publish (length : Nat) : Makes (grown length) (.publish length) () settled
  | clear : Makes restocked (.publish 0) () settled

theorem makes_of_access? {access : Access} {answer : access.Answer} {hold hold' : Hold}
    (haccess : hold.access? access answer = some hold') : hold.Makes access answer hold' := by
  unfold access? at haccess
  split at haccess <;> simp only [Option.ite_none_left_eq_some, Option.ite_none_right_eq_some,
    Option.some.injEq, reduceCtorEq] at haccess
  all_goals grind [Makes]

theorem access?_of_away {access : Access} {answer : access.Answer} {hold : Hold}
    (haccess : away.access? access answer = some hold) : access = .peek := by
  cases makes_of_access? haccess
  rfl

theorem access?_away_iff {access : Access} {answer : access.Answer} {hold hold' : Hold}
    (haccess : hold.access? access answer = some hold') : hold' = away ↔ hold = away := by
  cases makes_of_access? haccess <;> simp

end Hold

section
variable {target : Ref .mailbox} {happening : Happening}

theorem Visit.of?_of_spares (hspares : Spares target happening) :
    Visit.of? target happening = none := by
  unfold Visit.of?
  split
  · obtain ⟨hplace, _⟩ := hspares
    simp_all [Action.mailbox?]
  · rfl

/-- All that a step can be to a mailbox: it has nothing to do with it, makes an access, or takes the
lock or gives it back. -/
theorem Hold.next?_cases {hold hold' : Hold} (hnext : hold.next? target happening = some hold') :
    (Spares target happening ∧ hold' = hold) ∨
      (∃ access answer, happening = .acted (.mailbox target access) answer ∧
        hold.access? access answer = some hold') ∨
        (happening = .acted (.acquire (.queue target)) () ∧ hold' = settled) ∨
          (happening = .acted (.release (.queue target)) () ∧ hold' = away) := by
  cases happening with
  | acted action answer =>
      by_cases hspares : Spares target (.acted action answer)
      · refine Or.inl ⟨hspares, ?_⟩
        obtain ⟨hmailbox, hlock⟩ := hspares
        cases action <;> simp_all [next?, Action.mailbox?, Action.lock?]
      · refine Or.inr ?_
        cases action with
        | mailbox place access =>
            obtain rfl : place = target := by
              by_contra hplace
              exact hspares ⟨by simpa [Action.mailbox?], by simp [Action.lock?]⟩
            exact Or.inl ⟨access, answer, rfl, by simpa only [next?, if_pos] using hnext⟩
        | acquire lock =>
            obtain rfl : lock = .queue target := by
              by_contra hlock
              exact hspares ⟨by simp [Action.mailbox?], by simpa [Action.lock?]⟩
            simp only [next?, if_pos, Option.ite_none_right_eq_some, Option.some.injEq] at hnext
            exact Or.inr (Or.inl ⟨rfl, hnext.2.symm⟩)
        | release lock =>
            obtain rfl : lock = .queue target := by
              by_contra hlock
              exact hspares ⟨by simp [Action.mailbox?], by simpa [Action.lock?]⟩
            simp only [next?, if_pos] at hnext
            refine Or.inr (Or.inr ⟨rfl, ?_⟩)
            split at hnext <;> simp_all
        | _ => exact absurd ⟨by simp [Action.mailbox?], by simp [Action.lock?]⟩ hspares
  | answered callback result =>
      simp only [next?, Option.ite_none_right_eq_some, Option.some.injEq] at hnext
      exact Or.inl ⟨trivial, hnext.2.symm.trans hnext.1.symm⟩
  | _ =>
      simp only [next?, Option.some.injEq] at hnext
      exact Or.inl ⟨trivial, hnext.symm⟩

end

/-- Where an operation stands with a mailbox, and whether a callback has failed in it. -/
structure Visitor where
  operation : Operation
  hold : Hold
  visits : List Visit
  failed : Bool

end Mailbox

def Happening.resizes (target : Ref .mailbox) : Happening → Bool
  | .acted (.mailbox place access) _ => place = target && access.resizes
  | _ => false

namespace Operation

open Mailbox

/-- The visits to a mailbox that an operation can have made at any point. -/
def Visits (target : Ref .mailbox) (operation : Operation) (visits : List Visit) : Prop :=
  visits = [] ∨ operation.mailbox? = some target ∧
    match operation with
    | push _ message => visits = [.pushed message]
    | pushFromInterrupt _ message => ∃ accepted, visits = [.offered message accepted]
    | drain _ | drainLocked _ => ∃ messages, messages ≠ #[] ∧ visits = [.taken messages]
    | capacity _ => ∃ slots, visits = [.sized slots]
    | _ => False

/-- The visits that an operation on a mailbox has made when it returns a value: a drain returns
what it took, and the capacity is the one that was read. -/
def Visited : (operation : Operation) → List Visit → operation.Reply → Prop
  | push _ message, visits, _ => visits = [.pushed message]
  | pushFromInterrupt _ message, visits, _ => ∃ accepted, visits = [.offered message accepted]
  | drain _, visits, messages => visits = drained messages
  | drainLocked _, visits, messages => visits = drained messages
  | capacity _, visits, slots => visits = [.sized slots]
  | _, visits, _ => visits = []

/-- A handler gets by with the slots that there are. -/
def GetsBy (target : Ref .mailbox) (operation : Operation) (happening : Happening) : Prop :=
  operation.fromInterrupt → happening.resizes target = false

end Operation

namespace Mailbox

variable {target : Ref .mailbox}

/-- The discipline of the operations that visit a mailbox. -/
def sections (target : Ref .mailbox) : Discipline Visitor where
  start operation := ⟨operation, .away, [], false⟩
  observe visitor happening :=
    { visitor with
      hold := (visitor.hold.next? target happening).getD visitor.hold
      visits := visitor.visits ++ (Visit.of? target happening).toList
      failed := visitor.failed || happening.fails }
  Allows visitor happening :=
    (visitor.hold.next? target happening).isSome ∧
      visitor.operation.Visits target (visitor.visits ++ (Visit.of? target happening).toList) ∧
        visitor.operation.GetsBy target happening
  Presumes visitor
    | .acted (.mailbox place .replenish) replenished => place = target → replenished = true
    | .acted (.mailbox place .detach) messages => place = target →
        ∀ length, visitor.hold = .measured length → messages.size = length
    | _ => True
  Enters _ visitor := visitor.hold = .away ∧ visitor.visits = []
  Leaves _ visitor later _ :=
    later.operation = visitor.operation ∧ later.hold = .away ∧ later.visits = []
  Returns operation visitor result :=
    visitor.operation = operation ∧ visitor.hold = .away ∧
      (operation.mailbox? = some target →
        match result with
        | .ok reply => operation.Visited visitor.visits reply
        | .error _ => visitor.failed)

/-- What a visitor is that has nothing to do with the mailbox. -/
structure Visitor.Uninvolved (operation : Operation) (visitor : Visitor) : Prop where
  operation : visitor.operation = operation
  hold : visitor.hold = .away
  visits : visitor.visits = []

/-- A step that makes no visit leads on as `Hold.next?` says, and leaves what was visited. -/
theorem step_sections {operation : Operation} {hold hold' : Hold} {visits : List Visit}
    {failed : Bool} {happening : Happening}
    (hnext : hold.next? target happening = some hold')
    (hvisit : Visit.of? target happening = none) (hvisits : operation.Visits target visits)
    (hresizes : happening.resizes target = false) :
    (sections target).Allows ⟨operation, hold, visits, failed⟩ happening ∧
      (sections target).observe ⟨operation, hold, visits, failed⟩ happening =
        ⟨operation, hold', visits, failed || happening.fails⟩ := by
  have hsame : visits ++ (Visit.of? target happening).toList = visits := by
    rw [hvisit, Option.toList_none, List.append_nil]
  constructor
  · exact ⟨Option.isSome_of_eq_some hnext, hsame.symm ▸ hvisits, fun _ => hresizes⟩
  · change Visitor.mk operation ((hold.next? target happening).getD hold)
      (visits ++ (Visit.of? target happening).toList) (failed || happening.fails) = _
    rw [hsame, hnext, Option.getD_some]

/-- Happenings that spare a mailbox leave a visitor uninvolved. -/
theorem sections_spares {operation : Operation} {visitor : Visitor} {happening : Happening}
    (huninvolved : visitor.Uninvolved operation) (hspares : Spares target happening) :
    (sections target).Allows visitor happening ∧
      ((sections target).observe visitor happening).Uninvolved operation := by
  obtain ⟨_, hold, _, failed⟩ := visitor
  obtain ⟨rfl, rfl, rfl⟩ := huninvolved
  have hnext : Hold.away.next? target happening = some .away := by
    cases happening with
    | acted action answer =>
        cases action <;> simp_all [Hold.next?, Spares, Action.mailbox?, Action.lock?]
    | _ => rfl
  have hresizes : happening.resizes target = false := by
    cases happening with
    | acted action answer =>
        cases action <;> simp_all [Happening.resizes, Spares, Action.mailbox?]
    | _ => rfl
  obtain ⟨hallows, hobserve⟩ :=
    step_sections hnext (Visit.of?_of_spares hspares) (Or.inl rfl) hresizes
  refine ⟨hallows, ?_⟩
  rw [hobserve]
  exact ⟨rfl, rfl, rfl⟩

theorem spares_ensures {α : Type} {program : Program α} {operation : Operation}
    {visitor : Visitor} (huninvolved : visitor.Uninvolved operation)
    (hspares : program.Within (Spares target)) :
    program.Ensures (sections target) visitor fun later _ => later.Uninvolved operation :=
  hspares.ensures huninvolved
    (fun _ _ huninvolved hhappening => sections_spares huninvolved hhappening)
    fun _ _ huninvolved _ => ⟨⟨huninvolved.hold, huninvolved.visits⟩, fun _ _ hlater =>
      ⟨hlater.1.trans huninvolved.operation, hlater.2.1, hlater.2.2⟩⟩

section
variable {α : Type} {operation : Operation} {body : Program α}

/-- How the body of a section ends: it has a value, and the lock can be given back. -/
def Ends (target : Ref .mailbox) (operation : Operation) (Gives : α → List Visit → Prop)
    (inside : Visitor) (result : Except Failure α) : Prop :=
  ∃ value hold visits, result = .ok value ∧ inside = ⟨operation, hold, visits, false⟩ ∧
    hold.next? target (.acted (.release (.queue target)) ()) = some .away ∧
      operation.Visits target visits ∧ Gives value visits

theorem locked_sections (Gives : α → List Visit → Prop)
    (hbody : body.Ensures (sections target) ⟨operation, .settled, [], false⟩
      (Ends target operation Gives)) :
    (Program.locked (.queue target) body).Ensures (sections target)
      ⟨operation, .away, [], false⟩ fun later result =>
        ∃ value visits, result = .ok value ∧ later = ⟨operation, .away, visits, false⟩ ∧
          operation.Visits target visits ∧ Gives value visits := by
  rw [Program.ensures_locked]
  intro _
  have hacquire : Hold.away.next? target (.acted (.acquire (.queue target)) ()) = some .settled :=
    (if_pos rfl).trans (if_pos rfl)
  obtain ⟨hallows, hobserve⟩ := step_sections hacquire rfl (Or.inl rfl) rfl
  refine ⟨hallows, ?_⟩
  rw [hobserve]
  apply hbody.mono
  rintro _ _ ⟨value, hold, visits, rfl, rfl, hrelease, hvisits, hgives⟩ _
  obtain ⟨hallows, hobserve⟩ := step_sections hrelease rfl hvisits rfl
  exact ⟨hallows, value, visits, rfl, hobserve, hvisits, hgives⟩

/-- A masked section returns what its body does, unless a callback fails. -/
theorem masked_sections (Gives : α → List Visit → Prop)
    (hbody : body.Ensures (sections target) ⟨operation, .settled, [], false⟩
      (Ends target operation Gives)) :
    (Program.masked (Program.locked (.queue target) body)).Ensures (sections target)
      ⟨operation, .away, [], false⟩ fun later result =>
        ∃ visits failed, later = ⟨operation, .away, visits, failed⟩ ∧
          operation.Visits target visits ∧
            match result with
            | .ok value => failed = false ∧ Gives value visits
            | .error _ => failed := by
  have haway : ∀ (callback : Callback) (result : Except Failure callback.Answer),
      Hold.away.next? target (.answered callback result) = some .away := fun _ _ => rfl
  rw [Program.ensures_masked]
  intro masking _
  obtain ⟨hallows, hobserve⟩ := step_sections (haway .mask masking) rfl (Or.inl rfl) rfl
  refine ⟨hallows, ?_⟩
  rw [hobserve]
  cases masking with
  | error failure => exact ⟨[], true, rfl, Or.inl rfl, rfl⟩
  | ok previous =>
      apply (locked_sections Gives hbody).mono
      rintro _ _ ⟨value, visits, rfl, rfl, hvisits, hgives⟩ restoring _
      obtain ⟨hallows, hobserve⟩ :=
        step_sections (haway (.restore previous) restoring) rfl hvisits rfl
      refine ⟨hallows, visits, ?_⟩
      cases restoring with
      | error failure => exact ⟨true, hobserve, hvisits, rfl⟩
      | ok answer => exact ⟨false, hobserve, hvisits, rfl, hgives⟩

end

/-- One access inside of a section has to have its place there, whatever it answers. -/
theorem access_sections {operation : Operation} {access : Access} {hold : Hold}
    {visits : List Visit} {post : Visitor → Except Failure access.Answer → Prop}
    (hgets : operation.fromInterrupt → access.resizes = false)
    (haccess : ∀ answer, (sections target).Presumes ⟨operation, hold, visits, false⟩
        (.acted (.mailbox target access) answer) →
      ∃ hold', hold.access? access answer = some hold' ∧
        operation.Visits target (visits ++ (access.visit? answer).toList) ∧
          post ⟨operation, hold', visits ++ (access.visit? answer).toList, false⟩ (.ok answer)) :
    (Program.perform (.mailbox target access)).Ensures (sections target)
      ⟨operation, hold, visits, false⟩ post := by
  intro answer hpresumes
  obtain ⟨hold', haccess, hvisits, hpost⟩ := haccess answer hpresumes
  have hnext : hold.next? target (.acted (.mailbox target access) answer) = some hold' :=
    (if_pos rfl).trans haccess
  have hof : Visit.of? target (.acted (.mailbox target access) answer) = access.visit? answer :=
    if_pos rfl
  have hobserve : (sections target).observe ⟨operation, hold, visits, false⟩
      (.acted (.mailbox target access) answer) =
        ⟨operation, hold', visits ++ (access.visit? answer).toList, false⟩ := by
    change Visitor.mk operation ((hold.next? target _).getD hold)
      (visits ++ (Visit.of? target _).toList) false = _
    rw [hnext, hof, Option.getD_some]
  rw [hobserve]
  refine ⟨⟨Option.isSome_of_eq_some hnext, hof ▸ hvisits, fun hinterrupt => ?_⟩, hpost⟩
  rw [Happening.resizes, hgets hinterrupt, Bool.and_false]

theorem push_sections (message : Message) :
    (push target message).Ensures (sections target) ⟨.push target message, .away, [], false⟩
      ((sections target).Returns (.push target message)) := by
  have hpushed : (Operation.push target message).Visits target [.pushed message] :=
    Or.inr ⟨rfl, rfl⟩
  refine (masked_sections (fun _ visits => visits = [.pushed message]) ?_).mono ?_
  · rw [Program.ensures_bind]
    apply access_sections (by simp [Operation.fromInterrupt])
    intro length _
    refine ⟨.grown length, rfl, hpushed, ?_⟩
    apply access_sections (by simp [Operation.fromInterrupt])
    intro answer _
    refine ⟨.settled, if_pos rfl, hpushed, ?_⟩
    exact ⟨(), .settled, [.pushed message], rfl, rfl, if_pos rfl, hpushed, rfl⟩
  · rintro _ result ⟨visits, failed, rfl, _, hresult⟩
    refine ⟨rfl, rfl, fun _ => ?_⟩
    cases result with
    | ok reply => exact hresult.2
    | error failure => exact hresult

theorem pushFromInterrupt_sections (message : Message) :
    (pushFromInterrupt target message).Ensures (sections target)
      ⟨.pushFromInterrupt target message, .away, [], false⟩
      ((sections target).Returns (.pushFromInterrupt target message)) := by
  have hoffered : ∀ accepted, (Operation.pushFromInterrupt target message).Visits target
      [.offered message accepted] := fun accepted => Or.inr ⟨rfl, accepted, rfl⟩
  refine (locked_sections (fun _ visits =>
    ∃ accepted, visits = [.offered message accepted]) ?_).mono ?_
  · rw [Program.ensures_bind]
    apply access_sections (fun _ => rfl)
    intro answer _
    cases answer with
    | none =>
        refine ⟨.declined, rfl, hoffered false, ?_⟩
        apply access_sections (fun _ => rfl)
        intro answer _
        refine ⟨.settled, rfl, hoffered false, ?_⟩
        exact ⟨(), .settled, _, rfl, rfl, if_pos rfl, hoffered false, false, rfl⟩
    | some length =>
        refine ⟨.grown length, rfl, hoffered true, ?_⟩
        apply access_sections (fun _ => rfl)
        intro answer _
        refine ⟨.settled, if_pos rfl, hoffered true, ?_⟩
        exact ⟨(), .settled, _, rfl, rfl, if_pos rfl, hoffered true, true, rfl⟩
  · rintro _ _ ⟨value, visits, rfl, rfl, _, hgives⟩
    exact ⟨rfl, rfl, fun _ => hgives⟩

theorem capacity_sections :
    (capacity target).Ensures (sections target) ⟨.capacity target, .away, [], false⟩
      ((sections target).Returns (.capacity target)) := by
  refine (masked_sections (fun slots visits => visits = [.sized slots]) ?_).mono ?_
  · apply access_sections (fun _ => rfl)
    intro slots _
    have hsized : (Operation.capacity target).Visits target [.sized slots] :=
      Or.inr ⟨rfl, slots, rfl⟩
    refine ⟨.settled, rfl, hsized, ?_⟩
    exact ⟨slots, .settled, [.sized slots], rfl, rfl, if_pos rfl, hsized, rfl⟩
  · rintro _ result ⟨visits, failed, rfl, _, hresult⟩
    refine ⟨rfl, rfl, fun _ => ?_⟩
    cases result with
    | ok reply => exact hresult.2
    | error failure => exact hresult

/-- Inside the lock a drain gets all messages, whatever it finds. -/
theorem detachAll_sections {operation : Operation}
    (hoperation : operation = .drain target ∨ operation = .drainLocked target) :
    (detachAll target).Ensures (sections target) ⟨operation, .settled, [], false⟩
      (Ends target operation fun messages visits => visits = drained messages) := by
  have hnone : operation.Visits target [] := Or.inl rfl
  have htaken : ∀ messages : Array Message, messages ≠ #[] →
      operation.Visits target [.taken messages] := fun messages hmessages => by
    rcases hoperation with rfl | rfl <;> exact Or.inr ⟨rfl, messages, hmessages, rfl⟩
  have hgets : ∀ access : Access, operation.fromInterrupt → access.resizes = false := by
    rcases hoperation with rfl | rfl <;> simp [Operation.fromInterrupt]
  rw [detachAll, Program.ensures_bind]
  apply access_sections (hgets _)
  intro length _
  refine ⟨.measured length, rfl, hnone, ?_⟩
  by_cases hlength : length = 0
  · subst hlength
    exact ⟨#[], .measured 0, [], rfl, rfl, if_pos rfl, hnone, rfl⟩
  · simp only [if_neg hlength]
    rw [Program.ensures_bind]
    apply access_sections (hgets _)
    intro messages hsize
    obtain rfl : messages.size = length := hsize rfl length rfl
    have hmessages : messages ≠ #[] := fun hempty => hlength (by rw [hempty]; rfl)
    have hvisits := htaken messages hmessages
    refine ⟨.emptied, if_neg hlength, hvisits, ?_⟩
    dsimp only
    rw [Program.ensures_bind]
    apply access_sections (hgets _)
    intro replenished hreplenished
    obtain rfl : replenished = true := hreplenished rfl
    refine ⟨.restocked, rfl, hvisits, ?_⟩
    simp only [if_pos]
    rw [Program.ensures_bind]
    apply access_sections (hgets _)
    intro answer _
    refine ⟨.settled, rfl, hvisits, ?_⟩
    exact ⟨messages, .settled, _, rfl, rfl, if_pos rfl, hvisits, (if_neg hmessages).symm⟩

theorem drainLocked_sections {operation : Operation}
    (hoperation : operation = .drain target ∨ operation = .drainLocked target) :
    (drainLocked target).Ensures (sections target) ⟨operation, .away, [], false⟩
      fun later result => later.operation = operation ∧ later.hold = .away ∧
        match result with
        | .ok messages => later.visits = drained messages
        | .error _ => later.failed := by
  rw [drainLocked]
  apply (masked_sections _ (detachAll_sections hoperation)).bind
  · rintro _ messages ⟨visits, failed, rfl, hvisits, rfl, rfl⟩
    split
    · exact ⟨rfl, rfl, rfl⟩
    · rw [Program.ensures_bind]
      intro _
      obtain ⟨hallows, hobserve⟩ := step_sections
        (show Hold.away.next? target (.reported (.mailboxDrained messages.size)) = _ from rfl) rfl
        hvisits rfl
      refine ⟨hallows, ?_⟩
      rw [hobserve]
      exact ⟨rfl, rfl, rfl⟩
  · rintro _ failure ⟨visits, failed, rfl, _, hfailed⟩
    exact ⟨rfl, rfl, hfailed⟩

theorem drain_sections :
    (drain target).Ensures (sections target) ⟨.drain target, .away, [], false⟩
      ((sections target).Returns (.drain target)) := by
  rw [drain, Program.ensures_bind]
  apply access_sections (fun _ => rfl)
  intro queued _
  refine ⟨.away, rfl, Or.inl rfl, ?_⟩
  dsimp only
  split
  · exact ⟨rfl, rfl, fun _ => rfl⟩
  · apply (drainLocked_sections (Or.inl rfl)).mono
    rintro later result ⟨hoperation, hhold, hresult⟩
    refine ⟨hoperation, hhold, fun _ => ?_⟩
    cases result <;> exact hresult

/-- All operations keep to the sections of a mailbox. -/
theorem sections_obeyed (target : Ref .mailbox) : (sections target).Obeyed where
  operations operation := by
    by_cases hmailbox : operation.mailbox? = some target
    · cases operation with
      | push mailbox message => cases hmailbox; exact push_sections message
      | pushFromInterrupt mailbox message =>
          cases hmailbox
          exact pushFromInterrupt_sections message
      | drain mailbox => cases hmailbox; exact drain_sections
      | drainLocked mailbox =>
          cases hmailbox
          apply (drainLocked_sections (Or.inr rfl)).mono
          rintro later result ⟨hoperation, hhold, hresult⟩
          refine ⟨hoperation, hhold, fun _ => ?_⟩
          cases result <;> exact hresult
      | capacity mailbox => cases hmailbox; exact capacity_sections
      | _ => cases hmailbox
    · apply (spares_ensures ⟨rfl, rfl, rfl⟩ (Operation.program_spares hmailbox)).mono
      intro later result huninvolved
      exact ⟨huninvolved.operation, huninvolved.hold, fun hsame => absurd hsame hmailbox⟩
  procedures procedure visitor henters := by
    apply (spares_ensures ⟨rfl, henters.1, henters.2⟩ (procedure.code_spares target)).mono
    intro later result huninvolved
    exact ⟨huninvolved.operation, huninvolved.hold, huninvolved.visits⟩

end Mailbox

end CoreEngines
