import CoreEngines.Proofs.Creation.Rosters

/-!
Enrollment.  From its birth on a thread is in one place only: in the hands of its creator, until it
is put on record, and on one roster for ever after.
-/

namespace CoreEngines

/-- Where a thread is. -/
inductive ThreadPlace
  | fresh (number : Nat)
  | listed (registry : Ref .registry)

def ThreadPlace.contents (ledger : Ledger) (batches : Nat → Option Batch) :
    ThreadPlace → List (Ref .thread)
  | fresh number => (batches number).elim [] Batch.fresh
  | listed registry => ledger.roster registry

section
variable {ledger later : Ledger} {batches : Nat → Option Batch} {number : Nat}
  {batch batch' : Batch}

/-- A place that a step leaves as it was. -/
theorem ThreadPlace.contents_frame {place : ThreadPlace} (hbatch : batches number = some batch)
    (hfresh : place = .fresh number → batch'.fresh = batch.fresh)
    (hroster : ∀ registry, place = .listed registry →
      later.roster registry = ledger.roster registry) :
    contents later (Function.update batches number (some batch')) place =
      contents ledger batches place := by
  cases place with
  | fresh other =>
      rw [contents, elim_update]
      split
      case isTrue hother => subst hother; simp [contents, hbatch, hfresh rfl]
      case isFalse => rfl
  | listed registry => exact hroster registry rfl

/-- An operation with nothing in its hands takes the place of another. -/
theorem Sorted.vacate {made : Nat} {state : Option Batch}
    (hsorted : Sorted made (ThreadPlace.contents ledger batches))
    (hfresh : state.elim [] Batch.fresh = []) :
    Sorted made (ThreadPlace.contents ledger (Function.update batches number state)) := by
  apply hsorted.shrink
  intro place
  cases place with
  | fresh other =>
      rw [ThreadPlace.contents, elim_update, hfresh]
      split
      · exact List.nil_sublist _
      · exact List.Sublist.refl _
  | listed registry => exact List.Sublist.refl _

/-- Every step that is allowed leaves each thread in one place. -/
theorem Sorted.enroll {happening : Happening}
    (hsorted : Sorted ledger.made (ThreadPlace.contents ledger batches))
    (hbatch : batches number = some batch) (hanswers : ledger.Answers happening)
    (hallows : batch.Allows happening) :
    Sorted (ledger.record happening).made (ThreadPlace.contents (ledger.record happening)
      (Function.update batches number (some (batch.observe happening)))) := by
  have hsame : ∀ {later : Ledger} {batch' : Batch}, later.made = ledger.made →
      later.roster = ledger.roster → batch'.fresh = batch.fresh →
        Sorted later.made (ThreadPlace.contents later
          (Function.update batches number (some batch'))) := by
    intro later batch' hmade hroster hfresh
    have hcontents : ThreadPlace.contents later (Function.update batches number (some batch')) =
        ThreadPlace.contents ledger batches := funext fun place =>
      ThreadPlace.contents_frame hbatch (fun _ => hfresh) fun registry _ =>
        congrFun hroster registry
    rw [hmade, hcontents]
    exact hsorted
  induction happening using Happening.cases_plain with
  | plain happening hplain =>
      rw [Ledger.record_of_plain hplain]
      refine hsame rfl rfl ?_
      rw [Batch.observe, Batch.pass_of_plain hplain]
  | newThread id mailbox thread =>
      have hfresh : batch.fresh = [] := hallows
      refine hsorted.make (.fresh number) hanswers ?_ fun other hother => ?_
      · simp [ThreadPlace.contents, Batch.observe, Batch.pass, hfresh]
      · exact ThreadPlace.contents_frame hbatch (fun hsame => absurd hsame hother) fun _ _ => rfl
  | enroll registry thread count =>
      have hfresh : batch.fresh = [thread] := hallows
      refine hsorted.move (.fresh number) (.listed registry) [thread] (by simp) ?_ ?_
        fun other hsource htarget => ?_
      · simp [ThreadPlace.contents, Batch.observe, Batch.pass, hbatch, hfresh]
      · simp [ThreadPlace.contents, Ledger.record]
      · refine ThreadPlace.contents_frame hbatch (fun hsame => absurd hsame hsource) ?_
        rintro registry' rfl
        exact Function.update_of_ne (fun hsame => htarget (congrArg ThreadPlace.listed hsame)) _ _
  | bind thread sched first => cases first <;> exact hsame rfl rfl rfl
  | _ => exact hsame rfl rfl rfl

end

/-- In every run each thread is in one place. -/
theorem enrollment_upholds : admitting.Upholds {} fun _ world batches =>
    Sorted world.ledger.made (ThreadPlace.contents world.ledger batches) where
  idle :=
    { nodup := fun place => by cases place <;> exact List.nodup_nil
      apart := fun {place _ _} hplace => by cases place <;> cases hplace
      known := fun {place _} hplace => by cases place <;> cases hplace }
  start _ _ _ hsorted _ := hsorted.vacate rfl
  step _ _ hsorted hbatch _ hafter := by
    obtain ⟨hanswers, hledger⟩ := World.ledger_after hafter
    refine ⟨trivial, fun hallows => ?_⟩
    rw [hledger]
    exact hsorted.enroll hbatch hanswers hallows
  finish _ _ _ _ hsorted _ _ := hsorted.vacate rfl

namespace Runs

variable {history : History} {world : World} {flows : Nat → Flow}

theorem sorted (hrun : Runs {} history world flows) :
    Sorted world.ledger.made
      (ThreadPlace.contents world.ledger (admitting.standing (.ofHistory history))) :=
  (hrun.account admitting_obeyed enrollment_upholds).2

/-- No thread is listed twice in a registry, -/
theorem roster_nodup (hrun : Runs {} history world flows) (registry : Ref .registry) :
    (world.ledger.roster registry).Nodup :=
  hrun.sorted.nodup (.listed registry)

/-- nor in two registries. -/
theorem roster_apart {registry other : Ref .registry} {thread : Ref .thread}
    (hrun : Runs {} history world flows) (hthread : thread ∈ world.ledger.roster registry)
    (hother : thread ∈ world.ledger.roster other) : registry = other := by
  have hsame : ThreadPlace.listed registry = .listed other := hrun.sorted.apart hthread hother
  exact ThreadPlace.listed.inj hsame

end Runs

end CoreEngines
