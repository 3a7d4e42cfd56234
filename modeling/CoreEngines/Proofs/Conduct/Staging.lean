import CoreEngines.Proofs.Admission.Resumption
import CoreEngines.Proofs.Conduct.Laps
import CoreEngines.Proofs.Locks.Reentry

/-!
Staging.  A look at a registry finds what is staged in it, up to the threads of creators that other
flows have in their sections.  As long as nobody drains the registry, whatever is put on record
after a look stays staged, and the next look finds it.
-/

namespace CoreEngines

/-- The threads that a story has put on record in a registry and has not taken from it. -/
def stagedIn (target : Ref .registry) (story : List Happening) : List (Ref .thread) :=
  (enrolledIn target story).drop (takenIn target story).length

section
variable {target : Ref .registry} {happening : Happening} {threads : List (Ref .thread)}

/-- What a look finds is what it takes. -/
theorem Happening.taken_eq (happening : Happening) (target : Ref .registry) :
    happening.taken target = (happening.found? target).getD [] := by
  unfold found?
  split
  · simp only [taken]
    split <;> rfl
  · simp only [taken]
    split <;> rfl
  · next hdrain _ =>
    unfold taken
    split
    · exact absurd rfl (hdrain _ _)
    · rfl

theorem Happening.takesFrom_iff : happening.takesFrom target ↔ happening.taken target ≠ [] := by
  unfold takesFrom taken
  split
  · next registry threads => by_cases hregistry : registry = target <;> simp [hregistry]
  · simp

theorem enrolledIn_append (target : Ref .registry) (early late : List Happening) :
    enrolledIn target (early ++ late) = enrolledIn target early ++ enrolledIn target late :=
  List.filterMap_append

theorem takenIn_append (target : Ref .registry) (early late : List Happening) :
    takenIn target (early ++ late) = takenIn target early ++ takenIn target late :=
  List.flatMap_append

theorem takenIn_eq (target : Ref .registry) (story : List Happening) :
    takenIn target story = (looksIn target story).flatten := by
  induction story with
  | nil => rfl
  | cons happening story ih =>
      rw [takenIn, List.flatMap_cons, ← takenIn, ih, Happening.taken_eq, looksIn, looksIn]
      cases hfound : happening.found? target with
      | none => rw [List.filterMap_cons_none hfound]; rfl
      | some threads => rw [List.filterMap_cons_some hfound]; rfl

namespace Runs

variable {history : History} {world : World} {flows : Nat → Flow}

theorem taken_append_stagedIn (hrun : Runs {} history world flows) (target : Ref .registry) :
    takenIn target (history.map Prod.snd) ++ stagedIn target (history.map Prod.snd) =
      enrolledIn target (history.map Prod.snd) := by
  rw [stagedIn, ← hrun.roster, ← hrun.taken, List.drop_left]

theorem staged_eq (hrun : Runs {} history world flows) (target : Ref .registry) :
    world.ledger.staged target = stagedIn target (history.map Prod.snd) := by
  rw [stagedIn, ← hrun.roster, ← hrun.taken, List.drop_left]

theorem enrolled_nodup (hrun : Runs {} history world flows) (target : Ref .registry) :
    (enrolledIn target (history.map Prod.snd)).Nodup := by
  rw [← hrun.roster]
  exact hrun.roster_nodup target

theorem top_of_gains {index number : Nat}
    (hrun : Runs {} (history ++ [(index, happening)]) world flows) (hstep : happening.isStep)
    (hgains : (Journal.ofHistory history).Gains
      (Journal.ofHistory (history ++ [(index, happening)])) number happening) :
    ∃ numbers, (Journal.ofHistory history).running index = number :: numbers := by
  obtain ⟨other, numbers, _, _, _, _, hrunning, _⟩ := hrun.last_step hstep
  rw [Journal.ofHistory_concat, Journal.add_step hstep hrunning] at hgains
  obtain ⟨rfl, _⟩ := Prod.mk.inj (List.singleton_inj.mp (List.append_cancel_left hgains))
  exact ⟨numbers, hrunning⟩

/-- A creator that has returned a thread has published a length. -/
theorem publish_of_finished {number : Nat} {story : List Happening} {thread : Ref .thread}
    (hrun : Runs {} history world flows)
    (hown : (Journal.ofHistory history).own number = .started (.create target) :: story)
    (hfinished : .finished (.create target) (.ok thread) ∈ story) :
    ∃ length : Nat, .acted (.registry target (.publish length)) () ∈ history.map Prod.snd := by
  obtain ⟨shape, serial, mailbox, length, hcourse⟩ := hrun.ends hown hfinished
  have hpublish : .acted (.registry target (.publish length)) () ∈
      (Operation.create target).course story := by
    rw [hcourse]
    simp [Registry.creation]
  exact ⟨length, hrun.mem_history hown (Operation.mem_course.mp hpublish).1⟩

end Runs

end

namespace Registry

/-- Since an operation has started, nobody else has taken threads from the registry. -/
def DrainedBy (target : Ref .registry) (number : Nat) (history : History) : Prop :=
  ∀ entry ∈ (Journal.ofHistory history).entries.dropWhile (·.1 ≠ number),
    entry.2.takesFrom target → entry.1 = number

instance (target : Ref .registry) (number : Nat) (history : History) :
    Decidable (DrainedBy target number history) :=
  inferInstanceAs (Decidable (∀ entry ∈ _, _))

/-- A look of an operation for the staged threads of a registry. -/
structure Look (target : Ref .registry) (number : Nat) (history : History) where
  before : History
  place : Nat
  happening : Happening
  since : History
  found : List (Ref .thread)
  moment : history = before ++ (place, happening) :: since
  gains : (Journal.ofHistory before).Gains (Journal.ofHistory (before ++ [(place, happening)]))
    number happening
  finds : happening.found? target = some found

namespace Look

variable {target : Ref .registry} {number : Nat} {history : History}

def missed (look : Look target number history) : List (Ref .thread) :=
  (stagedIn target (look.before.map Prod.snd)).drop look.found.length

/-- The operation has not looked again. -/
def Last (look : Look target number history) : Prop :=
  ∃ middle, (Journal.ofHistory history).own number =
    (Journal.ofHistory look.before).own number ++ look.happening :: middle ∧
      looksIn target middle = []

variable {world : World} {flows : Nat → Flow} (look : Look target number history)

theorem taken : look.happening.taken target = look.found := by
  rw [Happening.taken_eq, look.finds]
  rfl

/-- A look is a drain, or sees a registry in which no length was published. -/
theorem cases : (∃ batch, look.happening = .acted (.registry target .detach) batch) ∨
    look.happening = .acted (.registry target .peek) (0 : Nat) ∧ look.found = [] := by
  have hfinds := look.finds
  unfold Happening.found? at hfinds
  split at hfinds
  · next registry batch heq =>
    rw [Option.ite_none_right_eq_some] at hfinds
    exact Or.inl ⟨batch, hfinds.1 ▸ heq⟩
  · next registry count heq =>
    rw [Option.ite_none_right_eq_some] at hfinds
    obtain ⟨⟨rfl, rfl⟩, hnone⟩ := hfinds
    exact Or.inr ⟨heq, (Option.some.inj hnone).symm⟩
  · cases hfinds

theorem isStep : look.happening.isStep := by
  obtain ⟨batch, hlook⟩ | ⟨hlook, _⟩ := look.cases <;> rw [hlook] <;> rfl

theorem not_enrolled : look.happening.enrolled? target = none := by
  obtain ⟨batch, hlook⟩ | ⟨hlook, _⟩ := look.cases <;> rw [hlook] <;> rfl

theorem enrolled : enrolledIn target (history.map Prod.snd) =
    enrolledIn target (look.before.map Prod.snd) ++
      enrolledIn target (look.since.map Prod.snd) := by
  have hnone : enrolledIn target (look.happening :: look.since.map Prod.snd) =
      enrolledIn target (look.since.map Prod.snd) := List.filterMap_cons_none look.not_enrolled
  conv_lhs => rw [look.moment]
  rw [List.map_append, List.map_cons, enrolledIn_append, hnone]

/-- A drain finds all that is staged. -/
theorem found_of_drain {batch : Array (Ref .thread)} (hrun : Runs {} history world flows)
    (hlook : look.happening = .acted (.registry target .detach) batch) :
    look.found = stagedIn target (look.before.map Prod.snd) := by
  rw [look.moment, hlook] at hrun
  obtain ⟨past, later, _, hbefore, hafter⟩ := hrun.moment
  have hanswers : batch.toList = past.ledger.staged target := (World.ledger_after hafter).1
  rw [← hbefore.staged_eq, ← hanswers, ← look.taken, hlook, Happening.taken, if_pos rfl]

theorem found_append_missed (hrun : Runs {} history world flows) :
    look.found ++ look.missed = stagedIn target (look.before.map Prod.snd) := by
  obtain ⟨batch, hlook⟩ | ⟨_, hnone⟩ := look.cases
  · rw [missed, look.found_of_drain hrun hlook, List.drop_length, List.append_nil]
  · rw [missed, hnone]
    rfl

theorem unpublished (hrun : Runs {} history world flows) {thread : Ref .thread}
    (hmissed : thread ∈ look.missed) :
    ∃ past flows, Runs {} look.before past flows ∧ (past.tally target).1 = 0 := by
  obtain ⟨batch, hlook⟩ | ⟨hlook, _⟩ := look.cases
  · rw [missed, look.found_of_drain hrun hlook, List.drop_length] at hmissed
    cases hmissed
  · rw [look.moment, hlook] at hrun
    obtain ⟨past, later, flows, hbefore, hafter⟩ := hrun.moment
    exact ⟨past, flows, hbefore, World.tally_of_peek hafter⟩

/-- Nothing was taken since the last look of an operation, if nobody else drains the registry. -/
theorem untaken (hrun : Runs {} history world flows) (hlast : look.Last)
    (hdrained : DrainedBy target number history) :
    takenIn target (look.since.map Prod.snd) = [] := by
  obtain ⟨middle, hown, hmiddle⟩ := hlast
  have hmoment : history = (look.before ++ [(look.place, look.happening)]) ++ look.since := by
    rw [List.append_assoc]
    exact look.moment
  obtain ⟨later, hlater⟩ := Journal.entries_append
    (look.before ++ [(look.place, look.happening)]) look.since
  rw [← hmoment, look.gains] at hlater
  have hsince : look.since.map Prod.snd = later.map Prod.snd := by
    have htold := hrun.journal.2
    rw [hmoment] at hrun
    obtain ⟨_, _, hearly⟩ := hrun.beginning
    have hearly := hearly.journal.2
    rw [hlater, List.map_append, ← look.gains, hearly] at htold
    conv_rhs at htold => rw [hmoment, List.map_append]
    exact (List.append_cancel_left htold).symm
  have hstory : middle = later.filterMap fun entry =>
      if entry.1 = number then some entry.2 else none := by
    have hlook : [(number, look.happening)].filterMap (fun entry =>
        if entry.1 = number then some entry.2 else none) = [look.happening] := by simp
    rw [Journal.own, hlater, List.filterMap_append, List.filterMap_append, ← Journal.own, hlook,
      List.append_assoc] at hown
    exact (List.cons.inj (List.append_cancel_left hown)).2.symm
  rw [takenIn, hsince, List.flatMap_map, List.flatMap_eq_nil_iff]
  intro entry hentry
  by_contra htaken
  have hmem : entry ∈ (Journal.ofHistory history).entries.dropWhile (·.1 ≠ number) := by
    rw [hlater, List.append_assoc, List.dropWhile_append]
    split
    · simp [hentry]
    · simp [hentry]
  have hnumber := hdrained entry hmem (Happening.takesFrom_iff.mpr htaken)
  have hmine : entry.2 ∈ middle := by
    rw [hstory]
    exact List.mem_filterMap.mpr ⟨entry, hentry, if_pos hnumber⟩
  rw [Happening.taken_eq, List.filterMap_eq_nil_iff.mp hmiddle entry.2 hmine] at htaken
  exact htaken rfl

/-- What a look has missed, and what was put on record since, stays staged. -/
theorem kept (hrun : Runs {} history world flows) (hlast : look.Last)
    (hdrained : DrainedBy target number history) :
    stagedIn target (history.map Prod.snd) =
      look.missed ++ enrolledIn target (look.since.map Prod.snd) := by
  have hall := hrun.taken_append_stagedIn target
  have huntaken := look.untaken hrun hlast hdrained
  have hfound := look.found_append_missed hrun
  have htaken : takenIn target (history.map Prod.snd) =
      takenIn target (look.before.map Prod.snd) ++ look.found := by
    have hlook : takenIn target (look.happening :: look.since.map Prod.snd) =
        look.found ++ takenIn target (look.since.map Prod.snd) := by
      rw [← look.taken]
      rfl
    conv_lhs => rw [look.moment]
    rw [List.map_append, List.map_cons, takenIn_append, hlook, huntaken, List.append_nil]
  rw [look.moment] at hrun
  obtain ⟨_, _, hbefore⟩ := hrun.beginning
  rw [htaken, look.enrolled, ← hbefore.taken_append_stagedIn, ← hfound] at hall
  simp only [List.append_assoc] at hall
  exact List.append_cancel_left (List.append_cancel_left hall)

/-- Who looks is the innermost operation of its flow. -/
theorem top (hrun : Runs {} history world flows) :
    ∃ numbers, (Journal.ofHistory look.before).running look.place = number :: numbers := by
  rw [look.moment, List.append_cons] at hrun
  obtain ⟨_, _, hnow⟩ := hrun.beginning
  exact hnow.top_of_gains look.isStep look.gains

/-- Who looks has been started. -/
theorem own_before (hrun : Runs {} history world flows) {operation : Operation}
    {story : List Happening}
    (hown : (Journal.ofHistory history).own number = .started operation :: story) :
    ∃ made, (Journal.ofHistory look.before).own number = .started operation :: made := by
  obtain ⟨numbers, hrunning⟩ := look.top hrun
  have hcontinues := Journal.own_continues look.before ((look.place, look.happening) :: look.since)
    number
  rw [look.moment] at hrun
  obtain ⟨_, _, hbefore⟩ := hrun.beginning
  have hmem : number ∈ (Journal.ofHistory look.before).running look.place := by
    rw [hrunning]
    exact List.mem_cons_self
  obtain ⟨other, made, hmade⟩ := hbefore.own_of_running hmem
  rw [← look.moment, hown, hmade] at hcontinues
  cases (List.cons_prefix_cons.mp hcontinues).1
  exact ⟨made, hmade⟩

/-- The creator of a thread that a look has missed is in its section, in another flow. -/
theorem busy {count : Nat} {moves : List (Nat × Move)} {machine : Machine} {operation : Operation}
    {story : List Happening} {thread : Ref .thread}
    (hrun : (Machine.idle {} count).run? moves = some (machine, history))
    (hown : (Journal.ofHistory look.before).own number = .started operation :: story)
    (hcreates : ∀ registry, operation ≠ .create registry) (hmissed : thread ∈ look.missed) :
    ∃ other ≠ look.place, ∃ creator ∈ (Journal.ofHistory look.before).running other, ∃ made,
      (Journal.ofHistory look.before).own creator = .started (.create target) :: made ∧
        thread ∈ enrolledIn target made ∧
          .roster target ∈ locksIn ((Journal.ofHistory look.before).own creator) := by
  have hruns := Machine.runs_of_run? hrun
  have hstaged : thread ∈ stagedIn target (look.before.map Prod.snd) := by
    rw [← look.found_append_missed hruns]
    exact List.mem_append_right _ hmissed
  obtain ⟨_, _, hbefore, hzero⟩ := look.unpublished hruns hmissed
  obtain ⟨creator, made, hmade, hthread, hrelease⟩ :=
    unreleased_of_count hbefore hzero (List.mem_of_mem_drop hstaged)
  rw [look.moment] at hrun
  obtain ⟨machine, first, _, hfirst, _⟩ := Machine.run?_split hrun
  have hnested := Machine.nested_run? (Machine.nested_idle {} count) hfirst
  obtain ⟨haccount, _⟩ := (Machine.runs_of_run? hfirst).account keeping_obeyed kept_upholds
  obtain ⟨length, henroll⟩ := mem_enrolledIn.mp hthread
  have hlock := Locks.holds_of_enroll haccount hmade henroll hrelease
  obtain ⟨other, hother⟩ := Locks.mem_running haccount hlock
  refine ⟨other, ?_, creator, hother, made, hmade, hthread, hlock⟩
  rintro rfl
  obtain ⟨numbers, hrunning⟩ := look.top hruns
  rw [hrunning] at hother
  rcases List.mem_cons.mp hother with rfl | hbelow
  · rw [hown] at hmade
    cases hmade
    exact hcreates target rfl
  · rw [Locks.enclosing_free haccount (hnested look.place) hrunning creator hbelow] at hlock
    cases hlock

section
variable {creator : Nat} {story : List Happening} {thread : Ref .thread}

/-- A thread whose creation has begun after a look was not found by it. -/
theorem not_found (hrun : Runs {} history world flows)
    (hcreator : (Journal.ofHistory look.before).started ≤ creator)
    (hown : (Journal.ofHistory history).own creator = .started (.create target) :: story)
    (hthread : thread ∈ enrolledIn target story) :
    thread ∉ look.found ∧ thread ∈ enrolledIn target (look.since.map Prod.snd) := by
  have hnodup := hrun.enrolled_nodup target
  have hfound := look.found_append_missed hrun
  have hlater : thread ∈ enrolledIn target (look.since.map Prod.snd) := by
    have hruns := hrun
    rw [look.moment] at hruns hown
    have hlater := enrolled_of_started hruns hcreator hown hthread
    rwa [List.map_cons, enrolledIn, List.filterMap_cons_none look.not_enrolled] at hlater
  refine ⟨fun hearly => ?_, hlater⟩
  have hstaged : thread ∈ stagedIn target (look.before.map Prod.snd) := by
    rw [← hfound]
    exact List.mem_append_left _ hearly
  rw [look.enrolled] at hnodup
  exact List.disjoint_of_nodup_append hnodup (List.mem_of_mem_drop hstaged) hlater

/-- No look misses a thread whose creator has returned. -/
theorem not_missed (hrun : Runs {} history world flows)
    (hown : (Journal.ofHistory look.before).own creator = .started (.create target) :: story)
    (hfinished : .finished (.create target) (.ok thread) ∈ story) {other : Ref .thread} :
    other ∉ look.missed := by
  intro hmissed
  obtain ⟨_, _, hbefore, hzero⟩ := look.unpublished hrun hmissed
  obtain ⟨length, hpublish⟩ := hbefore.publish_of_finished hown hfinished
  exact hbefore.not_published hzero length hpublish

end

end Look

/-- How an operation sees the staged threads of a registry. -/
structure Watched (target : Ref .registry) (number : Nat) (history : History) : Prop where
  /-- Whenever it looks, -/
  looked : ∀ {early late happening found},
    (Journal.ofHistory history).own number = early ++ happening :: late →
      happening.found? target = some found →
        ∃ look : Look target number history,
          (Journal.ofHistory look.before).own number = early ∧ look.happening = happening
  /-- it finds what is staged at that moment, in the order of the staging, -/
  found : ∀ look : Look target number history,
    look.found ++ look.missed = stagedIn target (look.before.map Prod.snd)
  /-- all of it but for threads that other flows are just putting on record. -/
  busy : ∀ look : Look target number history, ∀ thread ∈ look.missed,
    ∃ other ≠ look.place, ∃ creator ∈ (Journal.ofHistory look.before).running other, ∃ made,
      (Journal.ofHistory look.before).own creator = .started (.create target) :: made ∧
        thread ∈ enrolledIn target made ∧
          .roster target ∈ locksIn ((Journal.ofHistory look.before).own creator)
  /-- Until it looks again, and while nobody else drains the registry, all that is put on record
  stays staged. -/
  kept : ∀ {past rest} (look : Look target number past), history = past ++ rest → look.Last →
    DrainedBy target number past →
      stagedIn target (past.map Prod.snd) =
        look.missed ++ enrolledIn target (look.since.map Prod.snd)
  /-- A thread whose creation has begun after a look is not found by this look, and by the next one
  if it has been created by then. -/
  next : ∀ {past rest} (look : Look target number past), history = past ++ rest → look.Last →
    DrainedBy target number past →
      ∀ {creator made thread}, (Journal.ofHistory look.before).started ≤ creator →
        (Journal.ofHistory past).own creator = .started (.create target) :: made →
          .finished (.create target) (.ok thread) ∈ made →
            thread ∉ look.found ∧ thread ∈ stagedIn target (past.map Prod.snd) ∧
              ∀ later : Look target number history, later.before = past → thread ∈ later.found

theorem watched_of_run? {count : Nat} {moves : List (Nat × Move)} {machine : Machine}
    {history : History} {number : Nat} {operation : Operation} {story : List Happening}
    (hrun : (Machine.idle {} count).run? moves = some (machine, history))
    (hown : (Journal.ofHistory history).own number = .started operation :: story)
    (hcreates : ∀ registry, operation ≠ .create registry) (target : Ref .registry) :
    Watched target number history := by
  have hruns := Machine.runs_of_run? hrun
  refine ⟨?_, fun look => look.found_append_missed hruns, ?_, ?_, ?_⟩
  · intro early late happening found hstory hfinds
    obtain ⟨before, place, since, hmoment, hearly, hgains⟩ := hruns.moment_of_own hstory
    exact ⟨⟨before, place, happening, since, found, hmoment, hgains, hfinds⟩, hearly, rfl⟩
  · intro look thread hmissed
    obtain ⟨made, hmade⟩ := look.own_before hruns hown
    exact look.busy hrun hmade hcreates hmissed
  · rintro past rest look rfl hlast hdrained
    obtain ⟨_, _, hpast⟩ := hruns.beginning
    exact look.kept hpast hlast hdrained
  · rintro past rest look rfl hlast hdrained creator made thread hcreator hmade hfinished
    obtain ⟨_, _, hpast⟩ := hruns.beginning
    obtain ⟨hnot, hthread⟩ := look.not_found hpast hcreator hmade
      (mem_enrolledIn_of_finished hpast hmade hfinished)
    have hstaged : thread ∈ stagedIn target (past.map Prod.snd) := by
      rw [look.kept hpast hlast hdrained]
      exact List.mem_append_right _ hthread
    refine ⟨hnot, hstaged, fun later hlater => ?_⟩
    rw [← hlater, ← later.found_append_missed hruns] at hstaged
    rw [← hlater] at hmade
    exact (List.mem_append.mp hstaged).resolve_right (later.not_missed hruns hmade hfinished)

end Registry

end CoreEngines
