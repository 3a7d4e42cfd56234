import CoreEngines.Proofs.Admission.Coverage

/-!
The upkeep of admissions.  In every run in which threads get their names from admissions only, all
threads are in their places, all names are right, and no thread is forgotten.
-/

namespace CoreEngines

/-- How the threads of a run are kept. -/
structure Admissions (history : History) (world : World) (batches : Nat → Option Batch) :
    Prop where
  sorted : Sorted world.ledger.made
    (Place.contents world.ledger batches (handedIn (history.map Prod.snd)))
  names : Names history world.ledger.sched batches
  covered : Covered history world.ledger batches

namespace Admissions

variable {history : History} {world later : World} {batches : Nat → Option Batch}
  {index number : Nat} {batch : Batch} {happening : Happening}

theorem idle : Admissions [] {} fun _ => none where
  sorted :=
    { nodup := fun place => by cases place <;> exact List.nodup_nil
      apart := fun {place _ _} hplace => by cases place <;> cases hplace
      known := fun {place _} hplace => by cases place <;> cases hplace }
  names :=
    { proper := by simp
      bound := fun hbound => by cases hbound
      naming := fun hbatch => by cases hbatch
      alone := fun hbatch => by cases hbatch
      accepted := fun hbatch => by cases hbatch }
  covered :=
    { listed := fun hmem => by cases hmem
      known := fun hmem => by cases hmem
      started := fun hbatch => by cases hbatch
      failed := fun hbatch => by cases hbatch
      found := fun _ _ _ hmem => by cases hmem }

theorem start {operation : Operation} (hadmissions : Admissions history world batches)
    (hnone : batches number = none) (hbinds : (Happening.started operation).binds = false) :
    Admissions (history ++ [(index, .started operation)]) world
      (Function.update batches number (some (.start operation))) := by
  have hsteady : (Batch.start operation).Steady operation := by
    apply start_steady
    rintro thread sched rfl
    cases hbinds
  have hproper : (Happening.started operation).Proper := trivial
  have hhands : (Happening.started operation).hands = [] := rfl
  refine ⟨?_, ?_, hadmissions.covered.start hnone operation⟩
  · rw [handed_history, hhands, List.append_nil]
    exact hadmissions.sorted.empty hsteady.fresh hsteady.clear.1
  · apply (hadmissions.names.concat hproper).update
    rintro _ ⟨⟩
    refine ⟨rfl, fun thread sched hnaming => ?_⟩
    rw [hsteady.clear.2] at hnaming
    cases hnaming

theorem step (hadmissions : Admissions history world batches)
    (hbatch : batches number = some batch) (hafter : world.After happening later)
    (hallows : batch.Allows happening) :
    Admissions (history ++ [(index, happening)]) later
      (Function.update batches number (some (batch.observe happening))) := by
  obtain ⟨hsorted, hnames, hcovered⟩ := hadmissions
  obtain ⟨hanswers, hledger⟩ := World.ledger_after hafter
  have hfresh : ∀ thread ∈ batch.fresh, thread.index < world.ledger.made := by
    intro thread hmem
    have hplace : thread ∈ Place.contents world.ledger batches
        (handedIn (history.map Prod.snd)) (.fresh number) := by
      simpa [Place.contents, hbatch] using hmem
    exact hsorted.known hplace
  have hunhanded : ∀ thread ∈ batch.waiting, thread ∉ handedIn (history.map Prod.snd) := by
    intro thread hmem hhanded
    have hwaiting : thread ∈ Place.contents world.ledger batches
        (handedIn (history.map Prod.snd)) (.waiting number) := by
      simpa [Place.contents, hbatch] using hmem
    have hplace : thread ∈ Place.contents world.ledger batches
        (handedIn (history.map Prod.snd)) .handed := hhanded
    cases hsorted.apart hwaiting hplace
  constructor
  · rw [hledger, handed_history]
    exact hsorted.step hbatch hanswers hallows
  · rw [hledger]
    exact hnames.step hbatch hanswers hallows hunhanded
  · rw [hledger]
    exact hcovered.step hbatch hanswers hallows hfresh

theorem finish {operation : Operation} {result : Except Failure operation.Reply}
    (hadmissions : Admissions history world batches) (hbatch : batches number = some batch)
    (hreturns : admitting.Returns operation batch result) :
    Admissions (history ++ [(index, .finished operation result)]) world
      (Function.update batches number none) := by
  obtain ⟨hsorted, hnames, hcovered⟩ := hadmissions
  have hproper : (Happening.finished operation result).Proper := trivial
  have hhands : (Happening.finished operation result).hands = [] := rfl
  refine ⟨?_, ?_, hcovered.finish hbatch (hnames.accepted hbatch) hreturns⟩
  · rw [handed_history, hhands, List.append_nil]
    exact hsorted.empty rfl rfl
  · exact (hnames.concat hproper).update (by simp)

end Admissions

/-- No thread gets its name but from an admission. -/
def Unforced (history : History) : Prop :=
  ∀ entry ∈ history, entry.2.binds = false

instance {history : History} : Decidable (Unforced history) :=
  inferInstanceAs (Decidable (∀ entry ∈ history, _))

theorem Unforced.of_concat {history : History} {entry : Nat × Happening}
    (hunforced : Unforced (history ++ [entry])) : Unforced history ∧ entry.2.binds = false :=
  ⟨fun other hother => hunforced other (List.mem_append_left _ hother),
    hunforced entry (by simp)⟩

theorem admissions_upholds : admitting.Upholds {} fun history world batches =>
    Unforced history → Admissions history world batches where
  idle := fun _ => Admissions.idle
  start := by
    intro history world batches index number operation hholds hnone hunforced
    obtain ⟨hunforced, hbinds⟩ := hunforced.of_concat
    exact (hholds hunforced).start hnone hbinds
  step := by
    intro history world batches later batch happening index number hholds hbatch _ hafter
    refine ⟨trivial, fun hallows hunforced => ?_⟩
    exact (hholds hunforced.of_concat.1).step hbatch hafter hallows
  finish := by
    intro history world batches batch index number operation result hholds hbatch hreturns
      hunforced
    exact (hholds hunforced.of_concat.1).finish hbatch hreturns

end CoreEngines
