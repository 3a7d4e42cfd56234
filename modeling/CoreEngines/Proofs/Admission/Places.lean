import CoreEngines.Proofs.Admission.Batches
import CoreEngines.Proofs.Admission.Ledger

/-!
The way of a thread.  A thread is made, staged, drained and handed to a manager, and at any time it
is in one place only: fresh in the hands of its creator, staged in one registry, waiting in one
batch, or handed over.
-/

namespace CoreEngines

/-- The threads that a step drains from a registry, -/
def Happening.drains : Happening → List (Ref .thread)
  | .acted (.registry _ .detach) threads => threads.toList
  | _ => []

/-- and those that it hands to a manager. -/
def Happening.hands : Happening → List (Ref .thread)
  | .answered (.schedule _ _ thread) _ => [thread]
  | _ => []

/-- All threads that were drained, -/
def drainedIn (story : List Happening) : List (Ref .thread) :=
  story.flatMap Happening.drains

/-- and all that were handed to managers. -/
def handedIn (story : List Happening) : List (Ref .thread) :=
  story.flatMap Happening.hands

section
variable (story : List Happening) (happening : Happening)

theorem drainedIn_concat :
    drainedIn (story ++ [happening]) = drainedIn story ++ happening.drains := by
  simp [drainedIn]

theorem handedIn_concat : handedIn (story ++ [happening]) = handedIn story ++ happening.hands := by
  simp [handedIn]

end

/-- Where threads are on their way to a manager. -/
inductive Place
  | fresh (number : Nat)
  | staged (registry : Ref .registry)
  | waiting (number : Nat)
  | handed

/-- The threads in each place. -/
def Place.contents (ledger : Ledger) (batches : Nat → Option Batch) (handed : List (Ref .thread)) :
    Place → List (Ref .thread)
  | fresh number => (batches number).elim [] Batch.fresh
  | staged registry => ledger.staged registry
  | waiting number => (batches number).elim [] Batch.waiting
  | .handed => handed

/-- No thread is in two places, or twice in one. -/
structure Sorted {π : Type} (made : Nat) (contents : π → List (Ref .thread)) : Prop where
  nodup : ∀ place, (contents place).Nodup
  apart : ∀ {place other : π} {thread : Ref .thread}, thread ∈ contents place →
    thread ∈ contents other → place = other
  known : ∀ {place : π} {thread : Ref .thread}, thread ∈ contents place → thread.index < made

namespace Sorted

variable {π : Type} {made : Nat} {contents contents' : π → List (Ref .thread)}

theorem shrink (hsorted : Sorted made contents)
    (hsublist : ∀ place, (contents' place).Sublist (contents place)) : Sorted made contents' where
  nodup place := (hsublist place).nodup (hsorted.nodup place)
  apart hplace hother := hsorted.apart ((hsublist _).mem hplace) ((hsublist _).mem hother)
  known hplace := hsorted.known ((hsublist _).mem hplace)

/-- Threads that go from one place to another. -/
theorem move (source target : π) (moved : List (Ref .thread)) (hsorted : Sorted made contents)
    (hne : source ≠ target) (hsource : contents source = moved ++ contents' source)
    (htarget : contents' target = contents target ++ moved)
    (hothers : ∀ other, other ≠ source → other ≠ target → contents' other = contents other) :
    Sorted made contents' := by
  have hmoved : ∀ thread ∈ moved, thread ∈ contents source := fun thread hmem => by
    rw [hsource]
    exact List.mem_append_left _ hmem
  have hnodup := hsorted.nodup source
  rw [hsource, List.nodup_append'] at hnodup
  have horigin : ∀ place thread, thread ∈ contents' place →
      thread ∈ contents place ∨ (place = target ∧ thread ∈ moved) := by
    intro place thread hmem
    by_cases hplace : place = target
    · subst hplace
      rw [htarget] at hmem
      exact (List.mem_append.mp hmem).imp_right fun hmoved => ⟨rfl, hmoved⟩
    · by_cases hsame : place = source
      · subst hsame
        apply Or.inl
        rw [hsource]
        exact List.mem_append_right _ hmem
      · exact Or.inl (hothers place hsame hplace ▸ hmem)
  -- What has moved is not found in its old place any more, nor in a third one.
  have hleft : ∀ place thread, thread ∈ moved → thread ∈ contents' place → place = target := by
    intro place thread hthread hmem
    by_contra hplace
    have hold := (horigin place thread hmem).resolve_right fun hnew => hplace hnew.1
    obtain rfl := hsorted.apart hold (hmoved thread hthread)
    exact hnodup.2.2 hthread hmem
  constructor
  · intro place
    by_cases hplace : place = target
    · subst hplace
      rw [htarget, List.nodup_append']
      refine ⟨hsorted.nodup place, hnodup.1, fun thread hold hthread => ?_⟩
      exact hne (hsorted.apart (hmoved thread hthread) hold)
    · by_cases hsame : place = source
      · subst hsame
        exact hnodup.2.1
      · rw [hothers place hsame hplace]
        exact hsorted.nodup place
  · intro place other thread hplace hother
    rcases horigin place thread hplace with hold | ⟨rfl, hthread⟩
    · rcases horigin other thread hother with hold' | ⟨rfl, hthread⟩
      · exact hsorted.apart hold hold'
      · exact hleft place thread hthread hplace
    · exact (hleft other thread hthread hother).symm
  · intro place thread hmem
    rcases horigin place thread hmem with hold | ⟨_, hthread⟩
    · exact hsorted.known hold
    · exact hsorted.known (hmoved thread hthread)

/-- A new thread, in a place that was empty. -/
theorem make (target : π) {thread : Ref .thread} (hsorted : Sorted made contents)
    (hthread : thread.index = made) (htarget : contents' target = [thread])
    (hothers : ∀ other, other ≠ target → contents' other = contents other) :
    Sorted (made + 1) contents' := by
  have horigin : ∀ place known, known ∈ contents' place →
      (place = target ∧ known = thread) ∨ (known ∈ contents place ∧ known.index < made) := by
    intro place known hmem
    by_cases hplace : place = target
    · subst hplace
      rw [htarget, List.mem_singleton] at hmem
      exact Or.inl ⟨rfl, hmem⟩
    · rw [hothers place hplace] at hmem
      exact Or.inr ⟨hmem, hsorted.known hmem⟩
  constructor
  · intro place
    by_cases hplace : place = target
    · subst hplace
      rw [htarget]
      exact List.nodup_singleton thread
    · rw [hothers place hplace]
      exact hsorted.nodup place
  · intro place other known hplace hother
    rcases horigin place known hplace with ⟨rfl, rfl⟩ | ⟨hold, hknown⟩
    · rcases horigin other known hother with ⟨rfl, _⟩ | ⟨_, hknown⟩
      · rfl
      · omega
    · rcases horigin other known hother with ⟨_, rfl⟩ | ⟨hold', _⟩
      · omega
      · exact hsorted.apart hold hold'
  · intro place known hmem
    rcases horigin place known hmem with ⟨_, rfl⟩ | ⟨_, hknown⟩
    · omega
    · omega

end Sorted

namespace Ledger

variable {ledger : Ledger} {happening : Happening}

theorem record_of_plain (hplain : happening.Plain) : ledger.record happening = ledger := by
  unfold record
  split <;> first | rfl | exact hplain.elim

end Ledger

namespace Happening

variable {happening : Happening}

theorem drains_of_plain (hplain : happening.Plain) : happening.drains = [] := by
  unfold drains
  split <;> first | rfl | exact hplain.elim

theorem hands_of_plain (hplain : happening.Plain) : happening.hands = [] := by
  unfold hands
  split <;> first | rfl | exact hplain.elim

end Happening

section
variable {ledger : Ledger} {batches : Nat → Option Batch} {handed : List (Ref .thread)}
  {number : Nat} {batch : Batch}

theorem elim_update (batches : Nat → Option Batch) (number : Nat) (state : Option Batch)
    (hold : Batch → List (Ref .thread)) (other : Nat) :
    (Function.update batches number state other).elim [] hold =
      if other = number then state.elim [] hold else (batches other).elim [] hold := by
  rw [Function.update_apply]
  split <;> rfl

/-- An operation whose hands are empty takes the place of another. -/
theorem Sorted.empty {made : Nat} {state : Option Batch}
    (hsorted : Sorted made (Place.contents ledger batches handed))
    (hfresh : state.elim [] Batch.fresh = []) (hwaiting : state.elim [] Batch.waiting = []) :
    Sorted made (Place.contents ledger (Function.update batches number state) handed) := by
  apply hsorted.shrink
  intro place
  cases place with
  | fresh other =>
      rw [Place.contents, elim_update, hfresh]
      split
      · exact List.nil_sublist _
      · exact List.Sublist.refl _
  | waiting other =>
      rw [Place.contents, elim_update, hwaiting]
      split
      · exact List.nil_sublist _
      · exact List.Sublist.refl _
  | _ => exact List.Sublist.refl _

/-- A place that a step leaves as it was. -/
theorem Place.contents_frame {place : Place} {later : Ledger} {batch' : Batch}
    {handed' : List (Ref .thread)} (hbatch : batches number = some batch)
    (hfresh : place = .fresh number → batch'.fresh = batch.fresh)
    (hstaged : ∀ registry, place = .staged registry →
      later.staged registry = ledger.staged registry)
    (hwaiting : place = .waiting number → batch'.waiting = batch.waiting)
    (hhanded : place = .handed → handed' = handed) :
    contents later (Function.update batches number (some batch')) handed' place =
      contents ledger batches handed place := by
  cases place with
  | fresh other =>
      rw [contents, elim_update]
      split
      case isTrue hother => subst hother; simp [contents, hbatch, hfresh rfl]
      case isFalse => rfl
  | staged registry => exact hstaged registry rfl
  | waiting other =>
      rw [contents, elim_update]
      split
      case isTrue hother => subst hother; simp [contents, hbatch, hwaiting rfl]
      case isFalse => rfl
  | handed => exact hhanded rfl

/-- Every step that is allowed leaves each thread in one place. -/
theorem Sorted.step {happening : Happening}
    (hsorted : Sorted ledger.made (Place.contents ledger batches handed))
    (hbatch : batches number = some batch) (hanswers : ledger.Answers happening)
    (hallows : batch.Allows happening) :
    Sorted (ledger.record happening).made (Place.contents (ledger.record happening)
      (Function.update batches number (some (batch.observe happening)))
        (handed ++ happening.hands)) := by
  have hsame : ∀ {later : Ledger} {batch' : Batch}, later.made = ledger.made →
      later.staged = ledger.staged → batch'.fresh = batch.fresh →
        batch'.waiting = batch.waiting →
          Sorted later.made (Place.contents later
            (Function.update batches number (some batch')) (handed ++ [])) := by
    intro later batch' hmade hstaged hfresh hwaiting
    have hcontents : Place.contents later (Function.update batches number (some batch'))
        (handed ++ []) = Place.contents ledger batches handed := funext fun place =>
      Place.contents_frame hbatch (fun _ => hfresh) (fun registry _ => congrFun hstaged registry)
        (fun _ => hwaiting) (fun _ => List.append_nil handed)
    rw [hmade, hcontents]
    exact hsorted
  induction happening using Happening.cases_plain with
  | plain happening hplain =>
      rw [Ledger.record_of_plain hplain, Happening.hands_of_plain hplain]
      refine hsame rfl rfl ?_ ?_ <;> rw [Batch.observe, Batch.pass_of_plain hplain]
  | runLoop context => exact hsame rfl rfl rfl rfl
  | bind thread sched first => cases first <;> exact hsame rfl rfl rfl rfl
  | newThread id mailbox thread =>
      have hfresh : batch.fresh = [] := hallows
      refine hsorted.make (.fresh number) hanswers ?_ fun other hother => ?_
      · simp [Place.contents, Batch.observe, Batch.pass, hfresh]
      · exact Place.contents_frame hbatch (fun hsame => absurd hsame hother) (fun _ _ => rfl)
          (fun _ => rfl) (fun _ => List.append_nil handed)
  | enroll registry thread count =>
      have hfresh : batch.fresh = [thread] := hallows
      refine hsorted.move (.fresh number) (.staged registry) [thread] (by simp) ?_ ?_
        fun other hsource htarget => ?_
      · simp [Place.contents, Batch.observe, Batch.pass, hbatch, hfresh]
      · simp [Place.contents, Ledger.record]
      · refine Place.contents_frame hbatch (fun hsame => absurd hsame hsource) ?_
          (fun _ => rfl) (fun _ => List.append_nil handed)
        rintro registry' rfl
        exact Function.update_of_ne (fun hsame => htarget (congrArg Place.staged hsame)) _ _
  | detach registry threads =>
      obtain ⟨hwaiting, _⟩ : batch.Clear := hallows
      have hthreads : threads.toList = ledger.staged registry := hanswers
      refine hsorted.move (.staged registry) (.waiting number) (ledger.staged registry) (by simp) ?_
        ?_ fun other hsource htarget => ?_
      · simp [Place.contents, Ledger.record]
      · simp [Place.contents, Batch.observe, Batch.pass, hbatch, hthreads]
      · refine Place.contents_frame hbatch (fun _ => rfl) ?_
          (fun hsame => absurd hsame htarget) (fun _ => List.append_nil handed)
        rintro registry' rfl
        exact Function.update_of_ne (fun hsame => hsource (congrArg Place.staged hsame)) _ _
  | schedule manager name thread result =>
      obtain ⟨_, _, rest, hwaiting⟩ := hallows
      refine hsorted.move (.waiting number) .handed [thread] (by simp) ?_ ?_
        fun other hsource htarget => ?_
      · simp [Place.contents, Batch.observe, Batch.pass, hbatch, hwaiting]
      · rfl
      · exact Place.contents_frame hbatch (fun _ => rfl) (fun _ _ => rfl)
          (fun hsame => absurd hsame hsource) (fun hsame => absurd hsame htarget)

end

end CoreEngines
