import CoreEngines.Proofs.Actions
import CoreEngines.Proofs.Behavior

/-!
Footprints.  Each operation works on objects of few kinds, and leaves all others alone.
-/

namespace CoreEngines

/-- The kind of object that a lock guards. -/
def Lock.kind : Lock → Kind
  | queue _ => .mailbox
  | roster _ => .registry
  | storage _ => .thread
  | bootstrap _ => .engine

/-- The kind of object that an action touches.  Of the new objects only threads count, which are
handed around. -/
def Action.kind? : Action → Option Kind
  | counter _ _ => some .counter
  | mailbox _ _ => some .mailbox
  | thread _ _ => some .thread
  | registry _ _ => some .registry
  | context _ _ => some .context
  | engine _ _ => some .engine
  | acquire lock | release lock => some lock.kind
  | newThread _ _ => some .thread
  | _ => none

def Callback.kind? : Callback → Option Kind
  | schedule _ _ _ => some .thread
  | _ => none

def Procedure.kinds : Procedure → List Kind
  | claimSerial _ _ => [.counter]
  | runLoop _ => [.context, .registry, .thread]
  | idle => []

/-- The kinds of object that an operation touches. -/
def Operation.kinds : Operation → List Kind
  | makeCounter _ | makeMailbox _ | makeRegistry _ _ | makeContext _ _ _ _ | buildTable _ _
  | currentEngine _ | openScope | closeScope _ => []
  | claimSerial _ => [.counter]
  | push _ _ | pushFromInterrupt _ _ | drain _ | drainLocked _ | capacity _ => [.mailbox]
  | create _ => [.counter, .registry, .thread]
  | takeStaged _ | takeStagedLocked _ | threads _ => [.registry]
  | bind _ _ | setStatus _ _ | storage _ _ => [.thread]
  | admitStaged _ | run _ => [.context, .registry, .thread]
  | buildCache _ | tick _ | currentThread _ => [.context]
  | enter _ => [.engine, .context, .registry, .thread]
  | timerTick _ | requireContext _ => [.engine, .context]
  | localGet _ _ | localSet _ _ _ => [.engine, .context, .thread]

/-- Whether a happening touches objects of these kinds only. -/
def Happening.Touches (kinds : List Kind) : Happening → Prop
  | .acted action _ => ∀ kind ∈ action.kind?, kind ∈ kinds
  | .called procedure => procedure.kinds ⊆ kinds
  | .answered callback _ => ∀ kind ∈ callback.kind?, kind ∈ kinds
  | _ => True

abbrev Program.Touches {α : Type} (program : Program α) (kinds : List Kind) : Prop :=
  program.Within (Happening.Touches kinds)

def Topic.kind? : Topic → Option Kind
  | counter | claim => some .counter
  | mailbox => some .mailbox
  | thread | birth => some .thread
  | staging | record => some .registry
  | context => some .context
  | engine | entry => some .engine
  | outfit | host => none

/-- What an action touches is what its topic is about. -/
theorem Action.topic?_of_kind? {action : Action} {kind : Kind} (hkind : action.kind? = some kind)
    (answer : action.Answer) :
    ∃ topic, (Happening.acted action answer).topic? = some topic ∧ topic.kind? = some kind := by
  cases action with
  | counter place access =>
      cases hkind
      cases access with
      | load => exact ⟨.counter, rfl, rfl⟩
      | exchange seen next => cases answer <;> exact ⟨_, rfl, rfl⟩
  | mailbox place access | thread place access | context place access | newThread place access =>
      cases hkind
      exact ⟨_, rfl, rfl⟩
  | registry place access | engine place access =>
      cases hkind
      cases access <;> exact ⟨_, rfl, rfl⟩
  | acquire lock | release lock =>
      cases hkind
      cases lock <;> exact ⟨_, rfl, rfl⟩
  | _ => cases hkind

theorem Procedure.topic_of_mem_kinds {procedure : Procedure} {kind : Kind}
    (hkind : kind ∈ procedure.kinds) : ∃ topic ∈ procedure.topics, topic.kind? = some kind := by
  cases procedure <;> (dsimp only [kinds, topics] at *; revert kind; decide)

/-- What is about nothing else touches nothing else. -/
theorem touches_of_shows {topics : List Topic} {kinds : List Kind}
    (hkinds : ∀ topic ∈ topics, ∀ kind ∈ topic.kind?, kind ∈ kinds) (happening : Happening)
    (hshows : happening.Shows topics) : happening.Touches kinds := by
  cases happening with
  | acted action answer =>
      intro kind hkind
      obtain ⟨topic, htopic, hfeatKind⟩ := Action.topic?_of_kind? hkind answer
      exact hkinds topic (hshows topic htopic) kind hfeatKind
  | called procedure =>
      intro kind hkind
      obtain ⟨topic, htopic, hfeatKind⟩ := Procedure.topic_of_mem_kinds hkind
      exact hkinds topic (hshows htopic) kind hfeatKind
  | answered callback result =>
      intro kind hkind
      cases callback with
      | schedule manager name thread => exact hkinds .thread (hshows .thread rfl) kind hkind
      | _ => cases hkind
  | _ => trivial

theorem Program.Behaves.touches {α : Type} {program : Program α} {topics : List Topic}
    {kinds : List Kind} (hprogram : program.Behaves topics)
    (hkinds : ∀ topic ∈ topics, ∀ kind ∈ topic.kind?, kind ∈ kinds) : program.Touches kinds :=
  hprogram.shows.mono (touches_of_shows hkinds)

theorem Procedure.code_touches (procedure : Procedure) :
    procedure.code.Touches procedure.kinds := by
  apply procedure.code_behaves.touches
  cases procedure <;> (dsimp only [topics, kinds]; decide)

/-- No operation touches an object of another kind than it works on. -/
theorem Operation.program_touches (operation : Operation) :
    operation.program.Touches operation.kinds := by
  apply operation.program_behaves.touches
  cases operation <;> (dsimp only [topics, kinds]; decide)

open Program

namespace Mailbox

/-- Whether a happening works on this mailbox and its lock only. -/
def Confines (place : Ref .mailbox) : Happening → Prop
  | .acted action _ => action.mailbox? = some place ∨ action.lock? = some (.queue place)
  | .called _ => False
  | .answered callback _ => callback.kind? = none
  | _ => True

section
variable {place : Ref .mailbox}

theorem confined_access (access : Access) :
    (perform (.mailbox place access)).Within (Confines place) :=
  Within.perform fun _ => Or.inl rfl

theorem confined_locked {α : Type} {body : Program α} (hbody : body.Within (Confines place)) :
    (locked (.queue place) body).Within (Confines place) :=
  Within.locked hbody (Or.inr rfl) (Or.inr rfl)

theorem confined_masked {α : Type} {body : Program α} (hbody : body.Within (Confines place)) :
    (masked body).Within (Confines place) :=
  Within.masked hbody (fun _ => rfl) fun _ _ => rfl

theorem push_confined (message : Message) : (push place message).Within (Confines place) :=
  confined_masked <| confined_locked <|
    Within.bind (confined_access _) fun _ => confined_access _

theorem pushFromInterrupt_confined (message : Message) :
    (pushFromInterrupt place message).Within (Confines place) := by
  refine confined_locked (Within.bind (confined_access _) fun accepted => ?_)
  split <;> exact confined_access _

theorem detachAll_confined : (detachAll place).Within (Confines place) := by
  apply Within.bind (confined_access _)
  intro length
  split
  · exact Within.pure _
  · apply Within.bind (confined_access _)
    intro messages
    apply Within.bind (confined_access _)
    intro replenished
    split
    · exact Within.bind (confined_access _) fun _ => Within.pure _
    · exact Within.fail _

theorem drainLocked_confined : (drainLocked place).Within (Confines place) := by
  apply Within.bind (confined_masked (confined_locked detachAll_confined))
  intro messages
  split
  · exact Within.pure _
  · exact Within.bind (Within.report trivial) fun _ => Within.pure _

theorem drain_confined : (drain place).Within (Confines place) := by
  apply Within.bind (confined_access _)
  intro queued
  split
  · exact Within.pure _
  · exact drainLocked_confined

theorem capacity_confined : (capacity place).Within (Confines place) :=
  confined_masked (confined_locked (confined_access _))

end

end Mailbox

def Operation.mailbox? : Operation → Option (Ref .mailbox)
  | push mailbox _ | pushFromInterrupt mailbox _ | drain mailbox | drainLocked mailbox
  | capacity mailbox => some mailbox
  | _ => none

def Operation.fromInterrupt : Operation → Bool
  | pushFromInterrupt _ _ => true
  | _ => false

/-- The operations on a mailbox work on nothing else. -/
theorem Operation.program_confined {operation : Operation} {place : Ref .mailbox}
    (hplace : operation.mailbox? = some place) :
    operation.program.Within (Mailbox.Confines place) := by
  cases operation with
  | push mailbox message => cases hplace; exact Mailbox.push_confined message
  | pushFromInterrupt mailbox message =>
      cases hplace
      exact Mailbox.pushFromInterrupt_confined message
  | drain mailbox => cases hplace; exact Mailbox.drain_confined
  | drainLocked mailbox => cases hplace; exact Mailbox.drainLocked_confined
  | capacity mailbox => cases hplace; exact Mailbox.capacity_confined
  | _ => cases hplace

/-- Whether a happening leaves a mailbox and its lock alone. -/
def Mailbox.Spares (target : Ref .mailbox) : Happening → Prop
  | .acted action _ => action.mailbox? ≠ some target ∧ action.lock? ≠ some (.queue target)
  | _ => True

namespace Mailbox

variable {target : Ref .mailbox}

theorem spares_of_touches {kinds : List Kind} (hkinds : Kind.mailbox ∉ kinds)
    (happening : Happening) (htouches : happening.Touches kinds) : Spares target happening := by
  cases happening with
  | acted action answer =>
      have hkind : action.kind? ≠ some .mailbox := fun hkind => hkinds (htouches _ hkind)
      constructor
      · intro hmailbox
        cases action with
        | mailbox place access => exact hkind rfl
        | _ => cases hmailbox
      · intro hlock
        cases action with
        | acquire lock => cases hlock; exact hkind rfl
        | release lock => cases hlock; exact hkind rfl
        | _ => cases hlock
  | _ => trivial

theorem spares_of_confines {place : Ref .mailbox} (hplace : place ≠ target)
    (happening : Happening) (hconfines : Confines place happening) :
    Spares target happening := by
  cases happening with
  | acted action answer =>
      rcases hconfines with hmailbox | hlock
      · cases action with
        | mailbox target access =>
            cases hmailbox
            exact ⟨by simpa [Action.mailbox?], by simp [Action.lock?]⟩
        | _ => cases hmailbox
      · cases action with
        | acquire lock =>
            cases hlock
            exact ⟨by simp [Action.mailbox?], by simpa [Action.lock?]⟩
        | release lock =>
            cases hlock
            exact ⟨by simp [Action.mailbox?], by simpa [Action.lock?]⟩
        | _ => cases hlock
  | _ => trivial

end Mailbox

theorem Operation.program_spares {operation : Operation} {target : Ref .mailbox}
    (htarget : operation.mailbox? ≠ some target) :
    operation.program.Within (Mailbox.Spares target) := by
  cases hplace : operation.mailbox? with
  | none =>
      refine Program.Within.mono operation.program_touches (Mailbox.spares_of_touches ?_)
      cases operation <;> simp_all [kinds, mailbox?]
  | some place =>
      have hne : place ≠ target := fun hsame => htarget (hsame ▸ hplace)
      exact (program_confined hplace).mono (Mailbox.spares_of_confines hne)

theorem Procedure.code_spares (procedure : Procedure) (target : Ref .mailbox) :
    procedure.code.Within (Mailbox.Spares target) := by
  refine Program.Within.mono procedure.code_touches (Mailbox.spares_of_touches ?_)
  cases procedure <;> simp [kinds]

end CoreEngines
