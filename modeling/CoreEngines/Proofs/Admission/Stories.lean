import CoreEngines.Proofs.Admission.Upkeep
import CoreEngines.Proofs.Invariants

/-!
Admissions as their own stories tell them: what an operation has drained and handed over, whether a
name was refused, and whether it still has threads in its hands.
-/

namespace CoreEngines

/-- Whether an operation is in the middle of an admission after a step: it is as soon as it has
drained threads, until it reports that all of them are admitted. -/
def Happening.engages (engaged : Bool) : Happening → Bool
  | .acted (.registry _ .detach) threads => engaged || !threads.isEmpty
  | .reported (.batchAdmitted _ _) => false
  | _ => engaged

/-- Whether an operation with this story is in the middle of an admission. -/
def engagedIn (story : List Happening) : Bool :=
  story.foldl Happening.engages false

namespace Batch

variable {batch : Batch} {happening : Happening}

theorem observe_drained (batch : Batch) (happening : Happening) :
    (batch.observe happening).drained = batch.drained ++ happening.drains := by
  induction happening using Happening.cases_plain with
  | plain happening hplain =>
      rw [observe, pass_of_plain hplain, Happening.drains_of_plain hplain, List.append_nil]
  | detach registry threads => rfl
  | _ => exact (List.append_nil _).symm

theorem observe_handed (batch : Batch) (happening : Happening) :
    (batch.observe happening).handed = batch.handed ++ happening.hands := by
  induction happening using Happening.cases_plain with
  | plain happening hplain =>
      rw [observe, pass_of_plain hplain, Happening.hands_of_plain hplain, List.append_nil]
  | schedule manager name thread result => rfl
  | _ => exact (List.append_nil _).symm

theorem observe_refused (hproper : happening.Proper) :
    (batch.observe happening).refused = batch.refused := by
  induction happening using Happening.cases_plain with
  | plain happening hplain => rw [observe, pass_of_plain hplain]
  | bind thread sched first =>
      obtain rfl : first = true := hproper
      exact Bool.or_false _
  | _ => rfl

end Batch

section
variable {operation : Operation} {steps : List Happening}

/-- What the batch of an operation says of its story. -/
theorem admitting_foldl (batch : Batch) (steps : List Happening) :
    (steps.foldl admitting.observe batch).drained = batch.drained ++ drainedIn steps ∧
      (steps.foldl admitting.observe batch).handed = batch.handed ++ handedIn steps ∧
        (steps.foldl admitting.observe batch).blamed =
          (batch.blamed || steps.any Happening.saysTwice) := by
  induction steps generalizing batch with
  | nil => simp [drainedIn, handedIn]
  | cons happening steps ih =>
      obtain ⟨hdrained, hhanded, hblamed⟩ := ih (batch.observe happening)
      refine ⟨?_, ?_, ?_⟩
      · rw [List.foldl_cons]
        apply hdrained.trans
        rw [Batch.observe_drained, drainedIn, drainedIn, List.flatMap_cons, List.append_assoc]
      · rw [List.foldl_cons]
        apply hhanded.trans
        rw [Batch.observe_handed, handedIn, handedIn, List.flatMap_cons, List.append_assoc]
      · rw [List.foldl_cons]
        apply hblamed.trans
        rw [Batch.observe, List.any_cons, Bool.or_assoc]

theorem refused_foldl {batch : Batch} (hproper : ∀ happening ∈ steps, happening.Proper) :
    (steps.foldl admitting.observe batch).refused = batch.refused := by
  induction steps generalizing batch with
  | nil => rfl
  | cons happening steps ih =>
      rw [List.foldl_cons, ih fun other hother => hproper other (List.mem_cons_of_mem _ hother)]
      exact Batch.observe_refused (hproper happening List.mem_cons_self)

/-- An operation has threads in its hands only in the middle of an admission. -/
theorem clear_step {batch : Batch} {happening : Happening} {engaged : Bool}
    (hclear : engaged = false → batch.Clear) (hallows : batch.Allows happening)
    (hidle : happening.engages engaged = false) : (batch.observe happening).Clear := by
  induction happening using Happening.cases_plain with
  | plain happening hplain =>
      rw [Batch.observe, Batch.pass_of_plain hplain]
      unfold Happening.engages at hidle
      split at hidle
      · exact hplain.elim
      · exact hallows
      · exact hclear hidle
  | newThread id mailbox thread => exact hclear hidle
  | enroll registry thread count => exact hclear hidle
  | runLoop context => exact hclear hidle
  | detach registry threads =>
      obtain ⟨hwaiting, hnaming⟩ := hallows
      obtain ⟨_, hempty⟩ := Bool.or_eq_false_iff.mp hidle
      obtain rfl : threads = #[] := by simpa using hempty
      exact ⟨by simp [Batch.observe, Batch.pass, hwaiting], hnaming⟩
  | bind thread sched first =>
      have hthread : batch.naming = some (thread, sched) := hallows
      obtain ⟨_, hnaming⟩ := hclear hidle
      cases hthread.symm.trans hnaming
  | schedule manager name thread result =>
      obtain ⟨_, _, rest, hrest⟩ := hallows
      obtain ⟨hwaiting, _⟩ := hclear hidle
      cases hrest.symm.trans hwaiting

theorem clear_foldl {batch : Batch} {engaged : Bool} (hclear : engaged = false → batch.Clear)
    (hkeeps : admitting.Keeps batch steps)
    (hidle : steps.foldl Happening.engages engaged = false) :
    (steps.foldl admitting.observe batch).Clear := by
  induction steps generalizing batch engaged with
  | nil => exact hclear hidle
  | cons happening steps ih =>
      obtain ⟨hallows, hkeeps⟩ := hkeeps
      exact ih (clear_step hclear hallows) hkeeps hidle

end

end CoreEngines
