import CoreEngines.Proofs.Admission.Places
import CoreEngines.Proofs.Courses.Stories
import CoreEngines.Proofs.Locks.Upkeep

/-!
Rosters as histories tell them.  A roster lists the threads in the order in which they were put on
record; those of them that were taken, in the order of the takes, come before those that are still
staged.  No thread is listed twice.
-/

namespace CoreEngines

/-- The thread that a step puts on record in a registry, -/
def Happening.enrolled? (target : Ref .registry) : Happening → Option (Ref .thread)
  | .acted (.registry registry (.enroll thread)) _ =>
      if registry = target then some thread else none
  | _ => none

/-- and the threads that a step takes from it. -/
def Happening.taken (target : Ref .registry) : Happening → List (Ref .thread)
  | .acted (.registry registry .detach) threads => if registry = target then threads.toList else []
  | _ => []

def Happening.published? (target : Ref .registry) : Happening → Option Nat
  | .acted (.registry registry (.publish count)) _ => if registry = target then some count else none
  | _ => none

/-- All threads that were put on record in a registry, in this order, -/
def enrolledIn (target : Ref .registry) (story : List Happening) : List (Ref .thread) :=
  story.filterMap (·.enrolled? target)

/-- and all threads that were taken from it. -/
def takenIn (target : Ref .registry) (story : List Happening) : List (Ref .thread) :=
  story.flatMap (·.taken target)

namespace Happening

variable {happening : Happening} {target : Ref .registry}

theorem enrolled?_of_plain (hplain : happening.Plain) : happening.enrolled? target = none := by
  unfold enrolled?
  split <;> first | rfl | exact hplain.elim

theorem taken_of_plain (hplain : happening.Plain) : happening.taken target = [] := by
  unfold taken
  split <;> first | rfl | exact hplain.elim

theorem enrolled?_eq_some {thread : Ref .thread} :
    happening.enrolled? target = some thread ↔
      ∃ length : Nat, happening = .acted (.registry target (.enroll thread)) length := by
  constructor
  · intro henrolled
    unfold enrolled? at henrolled
    split at henrolled
    · obtain ⟨rfl, hsame⟩ := Option.ite_none_right_eq_some.mp henrolled
      cases hsame
      exact ⟨_, rfl⟩
    · cases henrolled
  · rintro ⟨length, rfl⟩
    exact if_pos rfl

theorem published?_eq_some {count : Nat} :
    happening.published? target = some count ↔
      happening = .acted (.registry target (.publish count)) () := by
  constructor
  · intro hpublished
    unfold published? at hpublished
    split at hpublished
    · obtain ⟨rfl, hsame⟩ := Option.ite_none_right_eq_some.mp hpublished
      cases hsame
      rfl
    · cases hpublished
  · rintro rfl
    exact if_pos rfl

theorem tally_fst (happening : Happening) (lengths : Ref .registry → Nat × Nat)
    (target : Ref .registry) :
    (happening.tally lengths target).1 =
      (happening.published? target).getD (lengths target).1 := by
  unfold tally published?
  split
  case h_1 registry thread length =>
    by_cases hregistry : target = registry
    · subst hregistry
      simp
    · simp [hregistry]
  case h_2 registry count answer =>
    by_cases hregistry : registry = target
    · subst hregistry
      simp
    · simp [hregistry, Ne.symm hregistry]
  case h_3 hpublish =>
    split
    · exact absurd rfl (hpublish _ _ _)
    · rfl

end Happening

theorem mem_enrolledIn {target : Ref .registry} {story : List Happening} {thread : Ref .thread} :
    thread ∈ enrolledIn target story ↔
      ∃ length : Nat, .acted (.registry target (.enroll thread)) length ∈ story := by
  rw [enrolledIn, List.mem_filterMap]
  constructor
  · rintro ⟨happening, hmem, henrolled⟩
    obtain ⟨length, rfl⟩ := Happening.enrolled?_eq_some.mp henrolled
    exact ⟨length, hmem⟩
  · rintro ⟨length, hmem⟩
    exact ⟨_, hmem, Happening.enrolled?_eq_some.mpr ⟨length, rfl⟩⟩

theorem World.ledger_roster {world : World} {target : Ref .registry} {registry : Registry}
    (hregistry : world.registryAt? target = some registry) :
    world.ledger.roster target = registry.roster.toList := by
  simp [World.ledger, hregistry]

namespace Ledger

variable {ledger : Ledger} {happening : Happening}

theorem record_roster (target : Ref .registry) :
    (ledger.record happening).roster target =
      ledger.roster target ++ (happening.enrolled? target).toList := by
  induction happening using Happening.cases_plain with
  | plain happening hplain =>
      rw [record_of_plain hplain, Happening.enrolled?_of_plain hplain]
      simp
  | enroll registry thread count =>
      by_cases hregistry : registry = target
      · subst hregistry
        simp [record, Happening.enrolled?]
      · simp [record, Happening.enrolled?, hregistry, Ne.symm hregistry]
  | bind thread sched first => cases first <;> exact (List.append_nil _).symm
  | _ => exact (List.append_nil _).symm

theorem record_staged (target : Ref .registry) (hanswers : ledger.Answers happening) :
    happening.taken target ++ (ledger.record happening).staged target =
      ledger.staged target ++ (happening.enrolled? target).toList := by
  induction happening using Happening.cases_plain with
  | plain happening hplain =>
      rw [record_of_plain hplain, Happening.enrolled?_of_plain hplain,
        Happening.taken_of_plain hplain]
      simp
  | enroll registry thread count =>
      by_cases hregistry : registry = target
      · subst hregistry
        simp [record, Happening.enrolled?, Happening.taken]
      · simp [record, Happening.enrolled?, Happening.taken, hregistry, Ne.symm hregistry]
  | detach registry threads =>
      have hthreads : threads.toList = ledger.staged registry := hanswers
      by_cases hregistry : registry = target
      · subst hregistry
        simp [record, Happening.enrolled?, Happening.taken, hthreads]
      · simp [record, Happening.enrolled?, Happening.taken, hregistry, Ne.symm hregistry]
  | bind thread sched first => cases first <;> exact (List.append_nil _).symm
  | _ => exact (List.append_nil _).symm

end Ledger

namespace Runs

variable {history before after : History} {world : World} {flows : Nat → Flow}

/-- A roster lists the threads in the order in which they were put on record. -/
theorem roster (hrun : Runs {} history world flows) (target : Ref .registry) :
    world.ledger.roster target = enrolledIn target (history.map Prod.snd) := by
  refine hrun.keeps (fun history world =>
    world.ledger.roster target = enrolledIn target (history.map Prod.snd)) ?_ ?_
  · rfl
  · intro history world happening later index hroster hafter
    rw [(World.ledger_after hafter).2, Ledger.record_roster, hroster, List.map_append, enrolledIn,
      enrolledIn, List.filterMap_append]
    cases henrolled : happening.enrolled? target <;> simp [henrolled]

/-- The threads that were taken, and then those that are staged, make up the roster. -/
theorem taken (hrun : Runs {} history world flows) (target : Ref .registry) :
    takenIn target (history.map Prod.snd) ++ world.ledger.staged target =
      world.ledger.roster target := by
  refine hrun.keeps (fun history world =>
    takenIn target (history.map Prod.snd) ++ world.ledger.staged target =
      world.ledger.roster target) ?_ ?_
  · rfl
  · intro history world happening later index htaken hafter
    obtain ⟨hanswers, hledger⟩ := World.ledger_after hafter
    rw [hledger, Ledger.record_roster, ← htaken, List.append_assoc,
      ← Ledger.record_staged target hanswers]
    simp [takenIn]

end Runs

end CoreEngines
