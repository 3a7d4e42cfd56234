import CoreEngines.Proofs.Discipline

/-!
How operations keep locks.  An operation holds one lock at a time, gives it back itself, and has
none in its hands when it asks a callback, calls a procedure or returns.  Whoever enrolls a thread
publishes the new length of the roster before the lock goes back.
-/

namespace CoreEngines

/-- What an operation has in its hands. -/
inductive Keeping
  | free
  | holding (lock : Lock)
  /-- The lock of a registry, whose roster has a new length that is still to be published. -/
  | owing (registry : Ref .registry) (length : Nat)
deriving DecidableEq

namespace Keeping

def lock? : Keeping → Option Lock
  | free => none
  | holding lock => some lock
  | owing registry _ => some (.roster registry)

/-- What a step leads to, if it may be done. -/
def next? (keeping : Keeping) : Happening → Option Keeping
  | .acted (.acquire lock) _ => if keeping = free then some (holding lock) else none
  | .acted (.release lock) _ => if keeping = holding lock then some free else none
  | .acted (.registry registry (.enroll _)) length =>
      if keeping = holding (.roster registry) then some (owing registry length) else none
  | .acted (.registry registry (.publish count)) _ =>
      if keeping = owing registry count then some (holding (.roster registry)) else none
  | .answered _ _ | .called _ => if keeping = free then some free else none
  | _ => some keeping

end Keeping

/-- The discipline of locks. -/
def keeping : Discipline Keeping where
  start _ := .free
  observe state happening := (state.next? happening).getD state
  Allows state happening := (state.next? happening).isSome
  Presumes _ _ := True
  Enters _ state := state = .free
  Leaves _ _ later _ := later = .free
  Returns _ state _ := state = .free

/-- Whether a step leaves locks and rosters alone, and asks nobody. -/
def Happening.Inert : Happening → Prop
  | .acted (.acquire _) _ | .acted (.release _) _ | .acted (.registry _ (.enroll _)) _
  | .acted (.registry _ (.publish _)) _ | .answered _ _ | .called _ => False
  | _ => True

/-- The steps that have to do with locks, one by one, and all others. -/
theorem Happening.cases_inert {motive : Happening → Prop}
    (acquire : ∀ lock answer, motive (.acted (.acquire lock) answer))
    (release : ∀ lock answer, motive (.acted (.release lock) answer))
    (enroll : ∀ registry thread length,
      motive (.acted (.registry registry (.enroll thread)) length))
    (publish : ∀ registry count answer,
      motive (.acted (.registry registry (.publish count)) answer))
    (answered : ∀ callback result, motive (.answered callback result))
    (called : ∀ procedure, motive (.called procedure))
    (inert : ∀ happening : Happening, happening.Inert → motive happening)
    (happening : Happening) : motive happening := by
  by_cases hinert : happening.Inert
  · exact inert happening hinert
  · unfold Inert at hinert
    split at hinert
    · exact acquire _ _
    · exact release _ _
    · exact enroll _ _ _
    · exact publish _ _ _
    · exact answered _ _
    · exact called _
    · exact absurd trivial hinert

/-- A program that starts with free hands and ends with free hands. -/
def Program.Frees {α : Type} (program : Program α) : Prop :=
  program.Ensures keeping .free fun later _ => later = .free

section
variable {state : Keeping} {happening : Happening}

theorem Keeping.next?_of_inert (hinert : happening.Inert) :
    state.next? happening = some state := by
  unfold Keeping.next?
  split <;> first | rfl | exact hinert.elim

theorem keeping_step {later : Keeping} (hnext : state.next? happening = some later) :
    keeping.Allows state happening ∧ keeping.observe state happening = later := by
  simp [keeping, hnext]

end

namespace Program

variable {α β : Type}

theorem inert_keeping {body : Program α} {state : Keeping} (hbody : body.Within Happening.Inert) :
    body.Ensures keeping state fun later _ => later = state := by
  refine hbody.ensures ?_ ?_ ?_
  · rfl
  · rintro _ happening rfl hinert
    exact keeping_step (Keeping.next?_of_inert hinert)
  · intro procedure _ _ hcalled
    cases hcalled

namespace Frees

variable {program : Program α}

theorem of_inert (hprogram : program.Within Happening.Inert) : program.Frees :=
  inert_keeping hprogram

theorem andThen {next : Except Failure α → Program β} (hprogram : program.Frees)
    (hnext : ∀ result, (next result).Frees) : (program.andThen next).Frees := by
  rw [Frees, ensures_andThen]
  apply Ensures.mono hprogram
  rintro _ result rfl
  exact hnext result

theorem bind {next : α → Program β} (hprogram : program.Frees)
    (hnext : ∀ value, (next value).Frees) : (program >>= next).Frees := by
  apply hprogram.andThen
  intro result
  cases result with
  | ok value => exact hnext value
  | error failure => exact rfl

/-- A lock that is taken goes back after what is done under it. -/
theorem locked {lock : Lock} {body : Program α}
    (hbody : body.Ensures keeping (.holding lock) fun later _ => later = .holding lock) :
    (locked lock body).Frees := by
  rw [Frees, ensures_locked]
  intro _
  have hnext : Keeping.free.next? (.acted (.acquire lock) ()) = some (.holding lock) := by
    simp [Keeping.next?]
  obtain ⟨hacquire, hholding⟩ := keeping_step hnext
  refine ⟨hacquire, ?_⟩
  rw [hholding]
  apply hbody.mono
  rintro _ result rfl _
  exact keeping_step (by simp [Keeping.next?])

theorem request (callback : Callback) : (request callback).Frees :=
  fun _ _ => keeping_step rfl

theorem invoke (procedure : Procedure) : (invoke procedure).Frees := by
  intro _
  obtain ⟨hallows, hfree⟩ := keeping_step (show Keeping.free.next? (.called procedure) = _ from rfl)
  exact ⟨hallows, hfree, fun _ _ hleaves => hleaves⟩

theorem masked {body : Program α} (hbody : body.Frees) : (masked body).Frees :=
  bind (request _) fun _ => hbody.andThen fun result => (request _).andThen fun outcome => by
    cases outcome with
    | ok answer => exact rfl
    | error failure => cases result <;> exact rfl

end Frees

end Program

end CoreEngines
