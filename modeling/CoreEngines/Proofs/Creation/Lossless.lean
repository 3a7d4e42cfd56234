import CoreEngines.Proofs.Creation.Enrollment
import CoreEngines.Proofs.Schedules

/-!
Creations and takes.  Whatever the order in which any number of flows create threads in a registry
and take staged threads from it, no thread is lost or doubled, and an empty take has missed only
threads whose creators were not done.
-/

namespace CoreEngines

namespace Operation

variable {made : List Happening} {target : Ref .registry}

theorem create_of_record {operation : Operation} (htopic : .record ∈ operation.topics) :
    ∃ registry, operation = .create registry := by
  cases operation with
  | create registry => exact ⟨registry, rfl⟩
  | _ => simp at htopic

theorem Begins.registry_of_enroll {registry : Ref .registry} {thread : Ref .thread} {length : Nat}
    (hbegins : (create registry).Begins made)
    (hmem : .acted (.registry target (.enroll thread)) length ∈ made) : registry = target := by
  obtain ⟨_, ⟨shape, serial, mailbox, born, count, rfl⟩, hmade⟩ := hbegins
  have hpath := hmade.mem hmem
  simp only [Registry.creation, List.mem_cons] at hpath
  simp_all

/-- A creator publishes the length that it was answered. -/
theorem Begins.enroll_of_publish {registry : Ref .registry} {length : Nat}
    (hbegins : (create registry).Begins made)
    (hmem : .acted (.registry target (.publish length)) () ∈ made) :
    ∃ thread, .acted (.registry target (.enroll thread)) length ∈ made := by
  obtain ⟨_, ⟨shape, serial, mailbox, born, count, rfl⟩, hmade⟩ := hbegins
  obtain ⟨rfl, rfl⟩ : registry = target ∧ count = length := by
    have hpath := hmade.mem hmem
    simp only [Registry.creation, List.mem_cons] at hpath
    simp_all
  have hbefore := take_subset_of_mem hmade (show _[5]? = some _ from rfl)
    (by simp [Registry.creation]) hmem
  exact ⟨born, hbefore (by simp [Registry.creation])⟩

theorem Begins.publish_of_release (hbegins : (create target).Begins made)
    (hmem : .acted (.release (.roster target)) () ∈ made) :
    ∃ length : Nat, .acted (.registry target (.publish length)) () ∈ made := by
  obtain ⟨_, ⟨shape, serial, mailbox, born, count, rfl⟩, hmade⟩ := hbegins
  have hbefore := take_subset_of_mem hmade (show _[6]? = some _ from rfl)
    (by simp [Registry.creation]) hmem
  exact ⟨count, hbefore (by simp [Registry.creation])⟩

end Operation

namespace Runs

variable {history before after : History} {world : World} {flows : Nat → Flow}
  {target : Ref .registry}

theorem enroll_ne_zero {thread : Ref .thread} {length : Nat} (hrun : Runs {} history world flows)
    (hmem : .acted (.registry target (.enroll thread)) length ∈ history.map Prod.snd) :
    length ≠ 0 := by
  obtain ⟨⟨index, _⟩, hentry, rfl⟩ := List.mem_map.mp hmem
  obtain ⟨before, after, rfl⟩ := List.append_of_mem hentry
  obtain ⟨world, later, flows, _, hafter⟩ := hrun.moment
  have hperform : world.perform? (.registry target (.enroll thread)) = some (length, later) :=
    hafter
  cases World.effect_of_perform? hperform with
  | registry access hobject => exact Nat.succ_ne_zero _

theorem enroll_of_publish {length : Nat} (hrun : Runs {} history world flows)
    (hmem : .acted (.registry target (.publish length)) () ∈ history.map Prod.snd) :
    ∃ thread, .acted (.registry target (.enroll thread)) length ∈ history.map Prod.snd := by
  obtain ⟨⟨index, _⟩, hentry, rfl⟩ := List.mem_map.mp hmem
  obtain ⟨number, operation, story, hown, hcourse, hbegins, htopic⟩ :=
    hrun.doer_of_topic hentry rfl Operation.record_mem_traits
  obtain ⟨registry, rfl⟩ := Operation.create_of_record htopic
  obtain ⟨thread, henroll⟩ := hbegins.enroll_of_publish hcourse
  exact ⟨thread, hrun.mem_history hown (Operation.mem_course.mp henroll).1⟩

theorem publish_ne_zero {length : Nat} (hrun : Runs {} history world flows)
    (hmem : .acted (.registry target (.publish length)) () ∈ history.map Prod.snd) :
    length ≠ 0 := by
  obtain ⟨thread, henroll⟩ := hrun.enroll_of_publish hmem
  exact hrun.enroll_ne_zero henroll

theorem count (hrun : Runs {} history world flows) (target : Ref .registry) :
    (world.tally target).1 =
      ((history.map Prod.snd).filterMap (·.published? target)).getLast?.getD 0 := by
  refine hrun.keeps (fun history world => (world.tally target).1 =
    ((history.map Prod.snd).filterMap (·.published? target)).getLast?.getD 0) ?_ ?_
  · rfl
  · intro history world happening later index hcount hafter
    rw [World.tally_after hafter, Happening.tally_fst, hcount, List.map_append,
      List.filterMap_append]
    cases hpublished : happening.published? target <;> simp [hpublished]

/-- While the published length is zero, nothing has been published. -/
theorem not_published (hrun : Runs {} history world flows) (hzero : (world.tally target).1 = 0)
    (length : Nat) : .acted (.registry target (.publish length)) () ∉ history.map Prod.snd := by
  intro hmem
  have hlengths : length ∈ (history.map Prod.snd).filterMap (·.published? target) :=
    List.mem_filterMap.mpr ⟨_, hmem, Happening.published?_eq_some.mpr rfl⟩
  have hlast := List.getLast?_eq_some_getLast (List.ne_nil_of_mem hlengths)
  obtain ⟨happening, hmem, hpublished⟩ :=
    List.mem_filterMap.mp (List.getLast_mem (List.ne_nil_of_mem hlengths))
  obtain rfl := Happening.published?_eq_some.mp hpublished
  rw [hrun.count, hlast] at hzero
  exact hrun.publish_ne_zero hmem hzero

end Runs

/-- What is taken is on the course of a take. -/
theorem takenIn_course {operation : Operation} {target : Ref .registry} {story : List Happening}
    (htrait : .staging ∈ operation.traits) :
    takenIn target (operation.course story) = takenIn target story := by
  induction story with
  | nil => rfl
  | cons happening story ih =>
      rw [takenIn, takenIn, List.flatMap_cons, Operation.course, List.filter_cons]
      split
      case isTrue => exact congrArg _ ih
      case isFalse hmarks =>
        have hnone : happening.taken target = [] := by
          unfold Happening.taken
          split
          · exact absurd (Operation.marks_of_topic rfl htrait) hmarks
          · rfl
        rw [hnone]
        exact ih

namespace Registry

/-- What a run has made of the threads of a registry. -/
structure Lossless (target : Ref .registry) (registry : Registry) (machine : Machine)
    (history : History) : Prop where
  /-- The roster lists the threads in the order in which they were put on record. -/
  recorded : registry.roster.toList = enrolledIn target (history.map Prod.snd)
  /-- Those that were taken, in the order of the takes, and then those that are staged make it
  up. -/
  inOrder : takenIn target (history.map Prod.snd) ++ registry.pending.toList =
    registry.roster.toList
  /-- No thread is listed twice. -/
  nodup : registry.roster.toList.Nodup
  /-- While the lock is free, the published length is the true one. -/
  counted : .roster target ∉ machine.world.held → registry.count = registry.roster.size
  /-- A thread that a creator returned is listed once. -/
  created : ∀ {index thread}, (index, .finished (.create target) (.ok thread)) ∈ history →
    registry.roster.toList.count thread = 1
  /-- A take returns what it took, -/
  took : ∀ {number story staged},
    (Journal.ofHistory history).own number = .started (.takeStaged target) :: story →
      .finished (.takeStaged target) (.ok staged) ∈ story → staged.toList = takenIn target story
  /-- also one that always goes through the lock. -/
  tookLocked : ∀ {number story staged},
    (Journal.ofHistory history).own number = .started (.takeStagedLocked target) :: story →
      .finished (.takeStagedLocked target) (.ok staged) ∈ story →
        staged.toList = takenIn target story
  /-- Whoever sees an empty registry without the lock has missed only threads whose creators have
  not left their section. -/
  missed : ∀ {before after index thread},
    history = before ++ (index, .acted (.registry target .peek) (0 : Nat)) :: after →
      thread ∈ enrolledIn target (before.map Prod.snd) →
        ∃ number story, (Journal.ofHistory before).own number = .started (.create target) :: story ∧
          thread ∈ enrolledIn target story ∧ .acted (.release (.roster target)) () ∉ story
  /-- If one creator returns before another one starts, its thread comes first. -/
  ordered : ∀ {before after index number story first second}, history = before ++ after →
    (index, .finished (.create target) (.ok first)) ∈ before →
      (Journal.ofHistory before).started ≤ number →
        (Journal.ofHistory history).own number = .started (.create target) :: story →
          .finished (.create target) (.ok second) ∈ story →
            [first, second].Sublist registry.roster.toList

section
variable {history before after : History} {world : World} {flows : Nat → Flow}
  {target : Ref .registry} {number : Nat} {story : List Happening}

theorem mem_enrolledIn_of_finished {thread : Ref .thread} (hrun : Runs {} history world flows)
    (hown : (Journal.ofHistory history).own number = .started (.create target) :: story)
    (hfinished : .finished (.create target) (.ok thread) ∈ story) :
    thread ∈ enrolledIn target story := by
  obtain ⟨shape, serial, mailbox, length, hcourse⟩ := hrun.ends hown hfinished
  have henroll : .acted (.registry target (.enroll thread)) length ∈
      (Operation.create target).course story := by
    rw [hcourse]
    simp [creation]
  exact mem_enrolledIn.mpr ⟨length, (Operation.mem_course.mp henroll).1⟩

theorem mem_roster_of_finished {index : Nat} {thread : Ref .thread}
    (hrun : Runs {} history world flows)
    (hmem : (index, .finished (.create target) (.ok thread)) ∈ history) :
    thread ∈ world.ledger.roster target := by
  obtain ⟨number, story, hown, hfinished⟩ := hrun.returner hmem
  obtain ⟨length, henroll⟩ :=
    mem_enrolledIn.mp (mem_enrolledIn_of_finished hrun hown hfinished)
  rw [hrun.roster]
  exact mem_enrolledIn.mpr ⟨length, hrun.mem_history hown henroll⟩

/-- Every thread on record was put there by a creator. -/
theorem creator_of_enrolled {thread : Ref .thread} (hrun : Runs {} history world flows)
    (hthread : thread ∈ enrolledIn target (history.map Prod.snd)) :
    ∃ number story, (Journal.ofHistory history).own number = .started (.create target) :: story ∧
      thread ∈ enrolledIn target story := by
  obtain ⟨length, hmem⟩ := mem_enrolledIn.mp hthread
  obtain ⟨⟨index, _⟩, hentry, rfl⟩ := List.mem_map.mp hmem
  obtain ⟨number, operation, story, hown, hcourse, hbegins, htopic⟩ :=
    hrun.doer_of_topic hentry rfl Operation.record_mem_traits
  obtain ⟨registry, rfl⟩ := Operation.create_of_record htopic
  obtain rfl := hbegins.registry_of_enroll hcourse
  exact ⟨number, story, hown, mem_enrolledIn.mpr ⟨length, (Operation.mem_course.mp hcourse).1⟩⟩

/-- While the published length is zero, all creators of listed threads are in their sections. -/
theorem unreleased_of_count {thread : Ref .thread} (hrun : Runs {} history world flows)
    (hzero : (world.tally target).1 = 0)
    (hthread : thread ∈ enrolledIn target (history.map Prod.snd)) :
    ∃ number story, (Journal.ofHistory history).own number = .started (.create target) :: story ∧
      thread ∈ enrolledIn target story ∧ .acted (.release (.roster target)) () ∉ story := by
  obtain ⟨number, story, hown, henrolled⟩ := creator_of_enrolled hrun hthread
  refine ⟨number, story, hown, henrolled, fun hrelease => ?_⟩
  obtain ⟨published, hpublish⟩ := (hrun.begins hown).publish_of_release
    (Operation.mem_course_of_topic hrelease rfl (by simp [Operation.traits]))
  exact hrun.not_published hzero published
    (hrun.mem_history hown (Operation.mem_course.mp hpublish).1)

theorem taken_of_finished {staged : Array (Ref .thread)} (hrun : Runs {} history world flows)
    (hown : (Journal.ofHistory history).own number = .started (.takeStaged target) :: story)
    (hfinished : .finished (.takeStaged target) (.ok staged) ∈ story) :
    staged.toList = takenIn target story := by
  rw [← takenIn_course (show .staging ∈ (Operation.takeStaged target).traits by
    simp [Operation.traits])]
  obtain ⟨hcourse, rfl⟩ | ⟨count, _, hcourse⟩ := hrun.ends hown hfinished <;>
    simp [hcourse, takenIn, taking, Happening.taken]

theorem takenLocked_of_finished {staged : Array (Ref .thread)} (hrun : Runs {} history world flows)
    (hown : (Journal.ofHistory history).own number = .started (.takeStagedLocked target) :: story)
    (hfinished : .finished (.takeStagedLocked target) (.ok staged) ∈ story) :
    staged.toList = takenIn target story := by
  rw [← takenIn_course (show .staging ∈ (Operation.takeStagedLocked target).traits by
    simp [Operation.traits])]
  have hcourse : (Operation.takeStagedLocked target).course story = taking target staged :=
    hrun.ends hown hfinished
  simp [hcourse, takenIn, taking, Happening.taken]

/-- What a creator that has started later puts on record comes later. -/
theorem enrolled_of_started {thread : Ref .thread} (hrun : Runs {} (before ++ after) world flows)
    (hnumber : (Journal.ofHistory before).started ≤ number)
    (hown : (Journal.ofHistory (before ++ after)).own number = .started (.create target) :: story)
    (hthread : thread ∈ enrolledIn target story) :
    thread ∈ enrolledIn target (after.map Prod.snd) := by
  obtain ⟨_, _, hbefore⟩ := hrun.beginning
  obtain ⟨rest, hrest⟩ := Journal.deeds_append before after (·.enrolled? target)
  obtain ⟨length, henroll⟩ := mem_enrolledIn.mp hthread
  have hdeed : (number, thread) ∈ (Journal.ofHistory (before ++ after)).deeds
      (·.enrolled? target) := by
    refine Journal.mem_deeds.mpr ⟨_, ?_, Happening.enrolled?_eq_some.mpr ⟨length, rfl⟩⟩
    rw [hown]
    exact List.mem_cons_of_mem _ henroll
  have hlater : (number, thread) ∈ rest := by
    rw [hrest] at hdeed
    refine (List.mem_append.mp hdeed).resolve_left fun hearly => ?_
    obtain ⟨happening, hmem, _⟩ := Journal.mem_deeds.mp hearly
    rw [Journal.own_eq_nil hbefore.coursing.sound hnumber] at hmem
    cases hmem
  have hrecord := hrun.deeds (·.enrolled? target)
  rw [hrest, List.map_append, hbefore.deeds, List.map_append, List.filterMap_append] at hrecord
  rw [enrolledIn, ← List.append_cancel_left hrecord]
  exact List.mem_map_of_mem hlater

/-- Whoever starts later puts its thread on record later. -/
theorem sublist_of_started {first second : Ref .thread}
    (hrun : Runs {} (before ++ after) world flows)
    (hfirst : first ∈ enrolledIn target (before.map Prod.snd))
    (hnumber : (Journal.ofHistory before).started ≤ number)
    (hown : (Journal.ofHistory (before ++ after)).own number = .started (.create target) :: story)
    (hsecond : second ∈ enrolledIn target story) :
    [first, second].Sublist (enrolledIn target ((before ++ after).map Prod.snd)) := by
  have hlater := enrolled_of_started hrun hnumber hown hsecond
  rw [enrolledIn, List.map_append, List.filterMap_append]
  exact (List.singleton_sublist.mpr hfirst).append (List.singleton_sublist.mpr hlater)

end

/-- Creators and takers may come in any number and in any order. -/
theorem lossless_of_run? {count : Nat} {moves : List (Nat × Move)} {machine : Machine}
    {history : History} {target : Ref .registry} {registry : Registry}
    (hrun : (Machine.idle {} count).run? moves = some (machine, history))
    (hregistry : machine.world.registryAt? target = some registry) :
    Lossless target registry machine history := by
  have hruns := Machine.runs_of_run? hrun
  have hroster := World.ledger_roster hregistry
  have hstaged : machine.world.ledger.staged target = registry.pending.toList := by
    simp [World.ledger, hregistry]
  have hrecorded : registry.roster.toList = enrolledIn target (history.map Prod.snd) := by
    rw [← hroster, hruns.roster]
  refine ⟨hrecorded, ?_, ?_, ?_, ?_, ?_, ?_, ?_, ?_⟩
  · rw [← hroster, ← hstaged]
    exact hruns.taken target
  · rw [← hroster]
    exact hruns.roster_nodup target
  · intro hfree
    obtain ⟨_, hkept⟩ := hruns.account keeping_obeyed kept_upholds
    simpa [World.tally, hregistry] using hkept.published hfree
  · intro index thread hmem
    rw [← hroster]
    exact List.count_eq_one_of_mem (hruns.roster_nodup target) (mem_roster_of_finished hruns hmem)
  · exact fun hown hfinished => taken_of_finished hruns hown hfinished
  · exact fun hown hfinished => takenLocked_of_finished hruns hown hfinished
  · rintro before after index thread rfl hthread
    obtain ⟨world, later, flows, hbefore, hafter⟩ := hruns.moment
    exact unreleased_of_count hbefore (World.tally_of_peek hafter) hthread
  · rintro before after index number story first second rfl hfirst hnumber hown hsecond
    rw [hrecorded]
    obtain ⟨_, _, hbefore⟩ := hruns.beginning
    refine sublist_of_started hruns ?_ hnumber hown
      (mem_enrolledIn_of_finished hruns hown hsecond)
    rw [← hbefore.roster]
    exact mem_roster_of_finished hbefore hfirst

open Schedule

/-- Two flows create threads in one registry, and a third one takes what is staged: for the first
time while a creator is in its section, and again when that one is done and the other is not. -/
def takesAmidCreations : List (Nat × Move) :=
  inFlow 0 (along (.makeRegistry ⟨0⟩ 1) 2 ++ [Move.start (.create ⟨0⟩)] ++ steps 3 ++
    [Move.choose false] ++ steps 5) ++
  inFlow 2 (along (.takeStaged ⟨0⟩) 1) ++
  inFlow 1 ([Move.start (.create ⟨0⟩)] ++ steps 3 ++ [Move.choose false] ++ steps 3) ++
  inFlow 0 (steps 3 ++ [Move.finish]) ++ inFlow 2 (along (.takeStaged ⟨0⟩) 4) ++
  inFlow 1 (steps 5 ++ [Move.finish])

theorem lossless_takesAmidCreations : ∃ machine history registry,
    (Machine.idle {} 3).run? takesAmidCreations = some (machine, history) ∧
      machine.world.registryAt? ⟨0⟩ = some registry ∧ registry.roster = #[⟨0⟩, ⟨1⟩] ∧
        registry.pending = #[⟨1⟩] ∧ Lossless ⟨0⟩ registry machine history := by
  have hsome : ((Machine.idle {} 3).run? takesAmidCreations).isSome := by rfl
  obtain ⟨⟨machine, history⟩, hrun⟩ := Option.isSome_iff_exists.mp hsome
  have hregistry : (((Machine.idle {} 3).run? takesAmidCreations).bind fun outcome =>
      outcome.1.world.registryAt? ⟨0⟩) =
        some ⟨⟨0⟩, 1, ⟨0⟩, 2, #[⟨0⟩, ⟨1⟩], #[⟨1⟩]⟩ := by rfl
  rw [hrun] at hregistry
  exact ⟨machine, history, _, hrun, hregistry, rfl, rfl, lossless_of_run? hrun hregistry⟩

end Registry

end CoreEngines
