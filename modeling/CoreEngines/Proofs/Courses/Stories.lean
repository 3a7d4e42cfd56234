import CoreEngines.Proofs.Courses.Following
import CoreEngines.Proofs.Invariants

/-!
Courses as stories tell them.  In every run each operation, whether it is still running or has
returned, has gone some way along one of its paths, and whoever did something that is marked is one
of the operations that have it on their paths.
-/

namespace CoreEngines

theorem coursing_upholds {start : World} : coursing.Upholds start fun _ _ _ => True where
  idle := trivial
  start _ _ _ _ _ := trivial
  step _ _ _ _ _ _ := ⟨trivial, fun _ => trivial⟩
  finish _ _ _ _ _ _ _ := trivial

namespace Operation

variable {operation : Operation} {story : List Happening} {happening : Happening}

theorem mem_course :
    happening ∈ operation.course story ↔ happening ∈ story ∧ operation.marks happening :=
  List.mem_filter

theorem mem_course_of_topic {topic : Topic} (hmem : happening ∈ story)
    (htopic : happening.topic? = some topic) (htrait : topic ∈ operation.traits) :
    happening ∈ operation.course story :=
  mem_course.mpr ⟨hmem, marks_of_topic htopic htrait⟩

theorem filterMap_course {β : Type} {pick : Happening → Option β} {topic : Topic}
    (hpick : ∀ happening value, pick happening = some value → happening.topic? = some topic)
    (htrait : topic ∈ operation.traits) :
    (operation.course story).filterMap pick = story.filterMap pick := by
  rw [course, List.filterMap_filter]
  congr 1
  funext happening
  cases hsome : pick happening with
  | none => exact ite_self none
  | some value => rw [marks_of_topic (hpick happening value hsome) htrait, if_pos rfl]

/-- Every operation has a path. -/
theorem begins_nil (operation : Operation) : operation.Begins [] := by
  suffices hpath : ∃ path, operation.Path path from
    hpath.imp fun path hpath => ⟨hpath, List.nil_prefix⟩
  cases operation with
  | makeCounter first => exact ⟨_, ⟨0⟩, rfl⟩
  | claimSerial counter => exact ⟨_, 0, rfl⟩
  | makeRegistry core reserve => exact ⟨_, ⟨0⟩, ⟨0⟩, rfl⟩
  | create registry => exact ⟨_, ⟨⟨0⟩, 0, ⟨0⟩⟩, 0, ⟨0⟩, ⟨0⟩, 0, rfl⟩
  | takeStaged registry => exact ⟨_, Or.inl rfl⟩
  | takeStagedLocked registry => exact ⟨_, #[], rfl⟩
  | buildTable config modes => exact ⟨_, List.replicate modes.length default, by simp, rfl⟩
  | enter engine => exact ⟨_, .refused ⟨⟨0⟩, default, default, ⟨0⟩⟩⟩
  | _ => exact ⟨[], rfl⟩

end Operation

theorem coursing_foldl (course : Course) (story : List Happening) :
    story.foldl coursing.observe course = course.along (course.operation.course story) := by
  induction story generalizing course with
  | nil => simp [Operation.course]
  | cons happening story ih =>
      rw [List.foldl_cons, ih]
      change (course.along ([happening].filter course.operation.marks)).along
        (story.filter course.operation.marks) = _
      rw [Course.along_along, ← List.filter_append]
      rfl

theorem coursing_after (operation : Operation) (story : List Happening) :
    coursing.after operation story = ⟨operation, operation.course story⟩ := by
  rw [Discipline.after, coursing_foldl]
  rfl

theorem leads_of_keeps {operation : Operation} {story : List Happening} {happening : Happening}
    (hkeeps : coursing.Keeps ⟨operation, []⟩ (story ++ [happening])) :
    operation.Proceeds (operation.course story) ∧
      operation.Begins (operation.course (story ++ [happening])) := by
  obtain ⟨_, hallows⟩ := (Discipline.keeps_concat _ _ _).mp hkeeps
  rw [coursing_foldl] at hallows
  obtain ⟨hproceeds, hbegins⟩ : Course.Leads _ _ := hallows
  refine ⟨hproceeds, ?_⟩
  rw [Operation.course, List.filter_append]
  exact hbegins

theorem begins_of_keeps {operation : Operation} {story : List Happening}
    (hkeeps : coursing.Keeps ⟨operation, []⟩ story) :
    operation.Begins (operation.course story) := by
  rcases List.eq_nil_or_concat story with rfl | ⟨steps, last, rfl⟩
  · exact operation.begins_nil
  · rw [List.concat_eq_append] at hkeeps ⊢
    exact (leads_of_keeps hkeeps).2

theorem begins_of_asking {operation : Operation} {made : List Happening} {callback : Callback}
    {next : Except Failure callback.Answer → Program operation.Reply}
    (hmarks : operation.marks (.answered callback (.error .aborted)) = true)
    (hensures : (Program.ask callback next).Ensures coursing ⟨operation, made⟩
      (coursing.Returns operation)) :
    operation.Begins (made ++ [Happening.answered callback (.error .aborted)]) := by
  have hallows : Course.Leads _ _ := (hensures (.error .aborted) trivial).1
  simpa [hmarks] using hallows.begins

namespace Runs

variable {start world : World} {history : History} {flows : Nat → Flow} {number : Nat}
  {operation : Operation} {story : List Happening}

theorem coursing (hrun : Runs start history world flows) :
    CoreEngines.coursing.Account (.ofHistory history) flows :=
  (hrun.account coursing_obeyed coursing_upholds).1

/-- Each operation has gone some way along one of its paths. -/
theorem begins (hrun : Runs start history world flows)
    (hown : (Journal.ofHistory history).own number = .started operation :: story) :
    operation.Begins (operation.course story) := by
  have haccount := hrun.coursing
  obtain ⟨other, steps, _, hkeeps, hown' | ⟨result, hown', _⟩⟩ :=
    haccount.story (Journal.lt_started_of_own haccount.sound hown)
  · cases hown.symm.trans hown'
    exact begins_of_keeps hkeeps
  · cases hown.symm.trans hown'
    have hcourse : operation.course (steps ++ [Happening.finished operation result]) =
        operation.course steps := by
      simp [Operation.course, Operation.marks]
    rw [hcourse]
    exact begins_of_keeps hkeeps

/-- Each operation that has returned has ended as it should. -/
theorem ends {result : Except Failure operation.Reply} (hrun : Runs start history world flows)
    (hown : (Journal.ofHistory history).own number = .started operation :: story)
    (hfinished : .finished operation result ∈ story) :
    operation.Ends (operation.course story) result := by
  obtain ⟨steps, rfl, _, hreturns⟩ := hrun.coursing.returned hown hfinished
  rw [coursing_after] at hreturns
  have hcourse : operation.course (steps ++ [Happening.finished operation result]) =
      operation.course steps := by
    simp [Operation.course, Operation.marks]
  rw [hcourse]
  exact hreturns.2

theorem teller {index : Nat} {happening : Happening} (hrun : Runs start history world flows)
    (hmem : (index, happening) ∈ history) :
    ∃ number < (Journal.ofHistory history).started,
      happening ∈ (Journal.ofHistory history).own number := by
  have htold : happening ∈ (Journal.ofHistory history).entries.map Prod.snd := by
    rw [hrun.journal.2]
    exact List.mem_map_of_mem hmem
  obtain ⟨⟨number, told⟩, hentry, rfl⟩ := List.mem_map.mp htold
  exact ⟨number, hrun.coursing.sound.logged _ hentry,
    List.mem_filterMap.mpr ⟨_, hentry, if_pos rfl⟩⟩

/-- A story that is told at all begins with the start of an operation. -/
theorem own_cases (hrun : Runs start history world flows) (number : Nat) :
    (Journal.ofHistory history).own number = [] ∨
      ∃ operation story, (Journal.ofHistory history).own number = .started operation :: story := by
  by_cases hnumber : number < (Journal.ofHistory history).started
  · obtain ⟨operation, steps, _, _, hstory | ⟨result, hstory, _⟩⟩ := hrun.coursing.story hnumber
    · exact Or.inr ⟨operation, steps, hstory⟩
    · exact Or.inr ⟨operation, _, hstory⟩
  · exact Or.inl (Journal.own_eq_nil hrun.coursing.sound (Nat.le_of_not_lt hnumber))

theorem mem_history {happening : Happening} (hrun : Runs start history world flows)
    (hown : (Journal.ofHistory history).own number = .started operation :: story)
    (hmem : happening ∈ story) : happening ∈ history.map Prod.snd := by
  rw [← hrun.journal.2]
  apply Journal.mem_of_own
  rw [hown]
  exact List.mem_cons_of_mem _ hmem

/-- Every step was done by an operation. -/
theorem doer {index : Nat} {happening : Happening} (hrun : Runs start history world flows)
    (hmem : (index, happening) ∈ history) (hstep : happening.isStep) :
    ∃ number operation story,
      (Journal.ofHistory history).own number = .started operation :: story ∧
        happening ∈ story := by
  obtain ⟨number, hnumber, hown⟩ := hrun.teller hmem
  obtain ⟨operation, steps, _, _, hstory | ⟨result, hstory, _⟩⟩ := hrun.coursing.story hnumber
  · rw [hstory] at hown
    rcases List.mem_cons.mp hown with rfl | hown
    · cases hstep
    · exact ⟨number, operation, steps, hstory, hown⟩
  · rw [hstory] at hown
    rcases List.mem_cons.mp hown with rfl | hown
    · cases hstep
    · exact ⟨number, operation, _, hstory, hown⟩

/-- Every return is the end of an operation. -/
theorem returner {index : Nat} {result : Except Failure operation.Reply}
    (hrun : Runs start history world flows)
    (hmem : (index, .finished operation result) ∈ history) :
    ∃ number story, (Journal.ofHistory history).own number = .started operation :: story ∧
      .finished operation result ∈ story := by
  obtain ⟨number, hnumber, hown⟩ := hrun.teller hmem
  obtain ⟨other, steps, hsteps, _, hstory | ⟨result', hstory, _⟩⟩ := hrun.coursing.story hnumber
  · rw [hstory] at hown
    rcases List.mem_cons.mp hown with hsame | hown
    · cases hsame
    · cases hsteps _ hown
  · rw [hstory] at hown
    rcases List.mem_cons.mp hown with hsame | hown
    · cases hsame
    · rcases List.mem_append.mp hown with hstep | hlast
      · cases hsteps _ hstep
      · cases List.mem_singleton.mp hlast
        exact ⟨number, _, hstory, List.mem_append_right _ (List.mem_singleton_self _)⟩

end Runs

/-- Whoever has come to a point of a way that is passed once has done all that lies before it. -/
theorem take_subset_of_mem {α : Type} {made path : List α} {value : α} {place : Nat}
    (hmade : made <+: path) (hvalue : path[place]? = some value)
    (honce : value ∉ path.take place) (hmem : value ∈ made) : path.take place ⊆ made := by
  have hpoint : path.take place ++ [value] <+: path := by
    have htake : path.take (place + 1) = path.take place ++ [value] := by
      rw [List.take_add_one, hvalue]
      rfl
    exact htake ▸ List.take_prefix _ _
  rcases List.prefix_or_prefix_of_prefix hpoint hmade with hpast | hshort
  · exact fun other hother => hpast.mem (List.mem_append_left _ hother)
  · rcases List.prefix_concat_iff.mp hshort with rfl | hshort
    · exact fun other hother => List.mem_append_left _ hother
    · exact absurd (hshort.mem hmem) honce

theorem eq_of_mem_last {α : Type} {made way : List α} {value : α} (hmade : made <+: way ++ [value])
    (hmem : value ∈ made) (honce : value ∉ way) : made = way ++ [value] :=
  (List.prefix_concat_iff.mp hmade).resolve_right fun hshort => honce (hshort.mem hmem)

/-- Making a table makes counters, registries and engines and nothing else. -/
theorem Table.topic_of_making {config : Config} {first : UInt32} {modes : List Mode}
    {parts : List Part} {happening : Happening}
    (hmem : happening ∈ making config first modes parts) : happening.topic? = some .outfit := by
  induction modes generalizing first parts with
  | nil => cases hmem
  | cons mode modes ih =>
      cases parts with
      | nil => cases hmem
      | cons part parts =>
          rcases List.mem_append.mp hmem with hmem | hmem
          · simp only [Part.making, Registry.making, List.cons_append, List.nil_append,
              List.mem_cons, List.not_mem_nil, or_false] at hmem
            rcases hmem with rfl | rfl | rfl <;> rfl
          · exact ih hmem

namespace Operation

variable {operation : Operation} {made path : List Happening} {happening : Happening}

def does (operation : Operation) (happening : Happening) : Bool :=
  happening.topic?.any fun topic => topic ∈ operation.topics

/-- What is on the paths of an operation is about nothing else than the operation. -/
theorem Path.does (hpath : operation.Path path) : path.all operation.does = true := by
  cases operation with
  | create registry =>
      obtain ⟨shape, serial, mailbox, thread, length, rfl⟩ := hpath
      rfl
  | makeRegistry core reserve =>
      obtain ⟨counter, registry, rfl⟩ := hpath
      rfl
  | makeCounter first =>
      obtain ⟨counter, rfl⟩ := hpath
      rfl
  | claimSerial counter =>
      obtain ⟨serial, rfl⟩ := hpath
      rfl
  | takeStaged registry => obtain rfl | ⟨count, staged, _, rfl⟩ := hpath <;> rfl
  | takeStagedLocked registry =>
      obtain ⟨staged, rfl⟩ := hpath
      rfl
  | buildTable config modes =>
      obtain ⟨parts, _, rfl⟩ := hpath
      rw [List.all_eq_true]
      intro happening hmem
      rw [Operation.does, Table.topic_of_making hmem]
      rfl
  | enter engine => cases hpath <;> rfl
  | _ =>
      obtain rfl : path = [] := hpath
      rfl

theorem Begins.topic (hbegins : operation.Begins made) (hmem : happening ∈ made) :
    ∃ topic ∈ operation.topics, happening.topic? = some topic := by
  obtain ⟨path, hpath, hmade⟩ := hbegins
  have hdoes := List.all_eq_true.mp hpath.does happening (hmade.mem hmem)
  obtain ⟨topic, htopic, hknown⟩ := (Option.any_eq_true _ _).mp hdoes
  exact ⟨topic, of_decide_eq_true hknown, htopic⟩

/-- Whoever does nothing of one kind has none of it on its course. -/
theorem Begins.filterMap_eq_nil {β : Type} {pick : Happening → Option β} {topic : Topic}
    (hbegins : operation.Begins made)
    (hpick : ∀ happening value, pick happening = some value → happening.topic? = some topic)
    (hnot : topic ∉ operation.topics) : made.filterMap pick = [] := by
  rw [List.filterMap_eq_nil_iff]
  intro happening hmem
  rw [Option.eq_none_iff_forall_ne_some]
  intro value hvalue
  obtain ⟨other, hother, htopic⟩ := hbegins.topic hmem
  cases htopic.symm.trans (hpick happening value hvalue)
  exact hnot hother

end Operation

/-- Whoever did something that is marked for all operations has it on its course. -/
theorem Runs.doer_of_topic {start world : World} {history : History} {flows : Nat → Flow}
    {index : Nat} {happening : Happening} {topic : Topic} (hrun : Runs start history world flows)
    (hmem : (index, happening) ∈ history) (htopic : happening.topic? = some topic)
    (htraits : ∀ operation : Operation, topic ∈ operation.traits) :
    ∃ number operation story,
      (Journal.ofHistory history).own number = .started operation :: story ∧
        happening ∈ operation.course story ∧ operation.Begins (operation.course story) ∧
          topic ∈ operation.topics := by
  have hstep : happening.isStep := by
    cases happening <;> first | rfl | cases htopic
  obtain ⟨number, operation, story, hown, hstory⟩ := hrun.doer hmem hstep
  have hcourse := Operation.mem_course_of_topic hstory htopic (htraits operation)
  have hbegins := hrun.begins hown
  obtain ⟨other, hother, hsame⟩ := hbegins.topic hcourse
  cases htopic.symm.trans hsame
  exact ⟨number, operation, story, hown, hcourse, hbegins, hother⟩

end CoreEngines
