import CoreEngines.Proofs.Identity.Coherence
import CoreEngines.Proofs.Tellings

/-!
Owners of mailboxes.  A thread is created with a mailbox that was made for it, with the slots that
its registry reserves; so every thread has a mailbox of its own.
-/

namespace CoreEngines

def Happening.newMailbox? : Happening → Option (Ref .mailbox)
  | .acted (.newMailbox _) made => made
  | _ => none

namespace World

variable {world later : World} {happening : Happening}

/-- Mailboxes are numbered in the order in which they are made. -/
theorem mailboxes_after (hafter : world.After happening later) :
    (List.range later.mailboxes.size).map Ref.mk =
      (List.range world.mailboxes.size).map (@Ref.mk .mailbox) ++
        happening.newMailbox?.toList := by
  cases happening with
  | acted action answer =>
      cases effect_of_perform? hafter with
      | newMailbox hroom => simp [Happening.newMailbox?, List.range_succ]
      | mailbox access hobject => simp [Happening.newMailbox?]
      | _ => exact (List.append_nil _).symm
  | _ =>
      obtain rfl : later = world := hafter
      exact (List.append_nil _).symm

/-- A thread has the mailbox that it was made with. -/
theorem mailboxOf?_after {thread : Ref .thread} {mailbox : Ref .mailbox}
    (hafter : world.After happening later) (howner : later.mailboxOf? thread = some mailbox) :
    world.mailboxOf? thread = some mailbox ∨
      ∃ id, happening = .acted (.newThread id mailbox) thread := by
  cases happening with
  | acted action answer =>
      cases effect_of_perform? hafter with
      | thread access hobject =>
          exact Or.inl
            ((map_setIfInBounds hobject (thread_access_mailbox _ access) _).symm.trans howner)
      | newThread id made =>
          by_cases hthread : thread.index = world.threads.size
          · obtain rfl : thread = ⟨world.threads.size⟩ := congrArg Ref.mk hthread
            simp only [mailboxOf?, threadAt?, Array.getElem?_push_size] at howner
            cases howner
            exact Or.inr ⟨id, rfl⟩
          · rw [mailboxOf?, threadAt?, Array.getElem?_push, if_neg hthread] at howner
            exact Or.inl howner
      | _ => exact Or.inl howner
  | _ =>
      obtain rfl : later = world := hafter
      exact Or.inl howner

end World

/-- Whoever has come so far has seen what its registry reserves, and has made this mailbox with
it. -/
def Teller.Houses (teller : Teller) (mailbox : Ref .mailbox) : Prop :=
  ∃ registry shape, teller.operation = .create registry ∧
    .acted (.registry registry .shape) shape ∈ teller.made ∧
      .acted (.newMailbox shape.reserve) (some mailbox) ∈ teller.made

/-- The discipline of those who make threads. -/
def housing : Discipline Teller where
  start operation := ⟨operation, []⟩
  observe teller happening := { teller with made := teller.made ++ [happening] }
  Allows teller happening := ∀ id mailbox thread,
    happening = .acted (.newThread id mailbox) thread → teller.Houses mailbox
  Presumes _ _ := True
  Enters _ _ := True
  Leaves _ teller later _ := later.operation = teller.operation ∧ teller.made ⊆ later.made
  Returns _ _ _ := True

section
variable {teller : Teller}

/-- A program that makes no thread only adds to what was done. -/
theorem aside_housing {α : Type} {program : Program α} {topics : List Topic}
    (hprogram : program.Within (Happening.Shows topics)) (htopics : .birth ∉ topics) :
    program.Ensures housing teller fun later _ =>
      later.operation = teller.operation ∧ teller.made ⊆ later.made := by
  refine hprogram.ensures (show (fun later : Teller => later.operation = teller.operation ∧
    teller.made ⊆ later.made) teller from ⟨rfl, List.Subset.refl _⟩) ?_ ?_
  · rintro later happening ⟨hoperation, hmade⟩ hshows
    refine ⟨?_, hoperation, fun other hother => List.mem_append_left _ (hmade hother)⟩
    rintro id mailbox thread rfl
    exact absurd (hshows .birth rfl) htopics
  · rintro procedure later ⟨hoperation, hmade⟩ _
    exact ⟨trivial, fun last _ hleaves =>
      ⟨hleaves.1.trans hoperation, List.Subset.trans hmade hleaves.2⟩⟩

theorem make_housing (reserve : Nat) :
    (Mailbox.make reserve).Ensures housing teller fun later result =>
      ∀ mailbox, result = .ok mailbox → later = ⟨teller.operation,
        teller.made ++ [.acted (.newMailbox reserve) (some mailbox)]⟩ := by
  rw [Mailbox.make, Program.ensures_bind, Program.ensures_perform]
  rintro (made : Option (Ref .mailbox)) -
  refine ⟨(fun _ _ _ hsame => by cases hsame), ?_⟩
  cases made with
  | none => rintro mailbox ⟨⟩
  | some mailbox => rintro _ ⟨⟩; rfl

theorem create_housing (registry : Ref .registry) :
    (Registry.create registry).Ensures housing ⟨.create registry, []⟩ fun _ _ => True := by
  rw [Registry.create, Program.ensures_bind, Program.ensures_perform]
  rintro (shape : Registry.Shape) -
  refine ⟨(fun _ _ _ hsame => by cases hsame), ?_⟩
  apply (aside_housing (SerialCounter.claim_behaves _).shows (by simp)).bind
  · rintro ⟨_, claiming⟩ serial ⟨rfl, hclaiming⟩
    have hseen : .acted (.registry registry .shape) shape ∈ claiming :=
      hclaiming List.mem_cons_self
    apply (make_housing shape.reserve).bind
    · intro later mailbox hlater
      obtain rfl := hlater mailbox rfl
      rw [Program.ensures_bind, Program.ensures_perform]
      rintro (thread : Ref .thread) -
      refine ⟨?_, ?_⟩
      · rintro id place born hsame
        cases hsame
        exact ⟨registry, shape, rfl, List.mem_append_left _ hseen, by simp⟩
      · have htopics : Topic.birth ∉ [.staging, .record] := by simp
        refine (aside_housing ?_ htopics).mono fun _ _ _ => trivial
        exact (Registry.record_behaves registry thread).shows.bind fun _ =>
          Program.Within.bind (Program.Within.report (by simp)) fun _ => Program.Within.pure _
    · exact fun _ _ _ => trivial
  · exact fun _ _ _ => trivial

/-- All operations make threads as they should. -/
theorem housing_obeyed : housing.Obeyed where
  operations operation := by
    cases operation with
    | create registry => exact create_housing registry
    | _ =>
        refine (aside_housing (Operation.program_behaves _).shows ?_).mono fun _ _ _ => trivial
        simp
  procedures procedure teller _ := by
    apply aside_housing procedure.code_behaves.shows
    cases procedure <;> simp

theorem housing_upholds {start : World} : housing.Upholds start fun _ _ _ => True where
  idle := trivial
  start _ _ _ _ _ := trivial
  step _ _ _ _ _ _ := ⟨trivial, fun _ => trivial⟩
  finish _ _ _ _ _ _ _ := trivial

end

/-- Whoever creates a thread makes no other. -/
theorem Operation.Begins.born_eq {registry : Ref .registry} {made : List Happening}
    {thread other : Ref .thread} {id id' : ThreadId} {mailbox mailbox' : Ref .mailbox}
    (hbegins : (create registry).Begins made) (hborn : .acted (.newThread id mailbox) thread ∈ made)
    (hother : .acted (.newThread id' mailbox') other ∈ made) : thread = other := by
  obtain ⟨path, ⟨shape, serial, place, born, length, rfl⟩, hmade⟩ := hbegins
  have honly : ∀ {id mailbox thread}, .acted (.newThread id mailbox) thread ∈ made →
      thread = born := by
    intro id mailbox thread hmem
    have hpath := hmade.mem hmem
    simp only [Registry.creation, List.mem_cons] at hpath
    simp_all
  rw [honly hborn, honly hother]

namespace Runs

variable {world : World} {history : History} {flows : Nat → Flow} {thread other : Ref .thread}
  {mailbox : Ref .mailbox}

/-- No mailbox is made twice. -/
theorem newMailbox_nodup (hrun : Runs {} history world flows) :
    ((history.map Prod.snd).filterMap Happening.newMailbox?).Nodup := by
  have hmade : (history.map Prod.snd).filterMap Happening.newMailbox? =
      (List.range world.mailboxes.size).map Ref.mk := by
    apply hrun.keeps fun history world =>
      (history.map Prod.snd).filterMap Happening.newMailbox? =
        (List.range world.mailboxes.size).map Ref.mk
    · rfl
    · intro history world happening later index hmade hafter
      rw [World.mailboxes_after hafter, ← hmade, List.map_append, List.filterMap_append]
      cases hnew : happening.newMailbox? <;> simp [hnew]
  rw [hmade]
  exact List.nodup_range.map fun _ _ hsame => Ref.mk.inj hsame

/-- Every thread that is there was made in the run, with the mailbox that it has. -/
theorem thread_made (hrun : Runs {} history world flows)
    (howner : world.mailboxOf? thread = some mailbox) :
    ∃ index id, (index, .acted (.newThread id mailbox) thread) ∈ history := by
  revert howner
  apply hrun.keeps fun history world => world.mailboxOf? thread = some mailbox →
    ∃ index id, (index, .acted (.newThread id mailbox) thread) ∈ history
  · intro howner
    simp [World.mailboxOf?, World.threadAt?] at howner
  · intro history world happening later index hmade hafter howner
    rcases World.mailboxOf?_after hafter howner with hold | ⟨id, rfl⟩
    · obtain ⟨place, id, hmem⟩ := hmade hold
      exact ⟨place, id, List.mem_append_left _ hmem⟩
    · exact ⟨index, id, by simp⟩

/-- Whoever made a thread had made its mailbox, as the registry says. -/
theorem housed {number : Nat} {operation : Operation} {story : List Happening} {id : ThreadId}
    (hrun : Runs {} history world flows)
    (hown : (Journal.ofHistory history).own number = .started operation :: story)
    (hborn : .acted (.newThread id mailbox) thread ∈ story) :
    ∃ registry shape, operation = .create registry ∧
      .acted (.registry registry .shape) shape ∈ story ∧
        .acted (.newMailbox shape.reserve) (some mailbox) ∈ story := by
  obtain ⟨made, rest, rfl⟩ := List.append_of_mem hborn
  rw [← List.cons_append] at hown
  obtain ⟨before, index, after, rfl, hmade, hgains⟩ := hrun.moment_of_own hown
  obtain ⟨past, pastFlows, later, laterFlows, hpast, hnext, _⟩ := hrun.turn
  obtain ⟨teller, hteller, hallows⟩ :=
    ((hnext.account housing_obeyed housing_upholds).1.gained hgains).1
  obtain ⟨_, steps, hown', _, _, rfl⟩ :=
    (hpast.account housing_obeyed housing_upholds).1.story_of_standing hteller
  cases hmade.symm.trans hown'
  obtain ⟨registry, shape, hoperation, hseen, hnew⟩ := hallows id mailbox thread rfl
  have hafter : housing.after operation made = ⟨operation, made⟩ :=
    telling_foldl ⟨operation, []⟩ made
  rw [hafter] at hoperation hseen hnew
  exact ⟨registry, shape, hoperation, List.mem_append_left _ hseen, List.mem_append_left _ hnew⟩

/-- No two threads have one mailbox. -/
theorem owner_eq (hrun : Runs {} history world flows)
    (howner : world.mailboxOf? thread = some mailbox)
    (hother : world.mailboxOf? other = some mailbox) : thread = other := by
  have hmaker : ∀ {thread : Ref .thread}, world.mailboxOf? thread = some mailbox →
      ∃ number registry story id reserve,
        (Journal.ofHistory history).own number = .started (.create registry) :: story ∧
          .acted (.newThread id mailbox) thread ∈ story ∧
            .acted (.newMailbox reserve) (some mailbox) ∈ story := by
    intro thread howner
    obtain ⟨index, id, hmem⟩ := hrun.thread_made howner
    obtain ⟨number, operation, story, hown, hborn⟩ := hrun.doer hmem rfl
    obtain ⟨registry, shape, rfl, _, hnew⟩ := hrun.housed hown hborn
    exact ⟨number, registry, story, id, shape.reserve, hown, hborn, hnew⟩
  obtain ⟨number, registry, story, id, reserve, hown, hborn, hnew⟩ := hmaker howner
  obtain ⟨number', registry', story', id', reserve', hown', hborn', hnew'⟩ := hmaker hother
  obtain rfl : number = number' := hrun.doer_eq hrun.newMailbox_nodup
    (hown ▸ List.mem_cons_of_mem _ hnew) rfl (hown' ▸ List.mem_cons_of_mem _ hnew') rfl
  cases hown.symm.trans hown'
  exact (hrun.begins hown).born_eq
    (Operation.mem_course_of_topic hborn rfl (by simp [Operation.traits]))
    (Operation.mem_course_of_topic hborn' rfl (by simp [Operation.traits]))

/-- A thread that a registry lists has a mailbox with the reserve of the registry. -/
theorem mailbox_of_roster {target : Ref .registry} {registry : Registry}
    (hrun : Runs {} history world flows) (hregistry : world.registryAt? target = some registry)
    (hthread : thread ∈ registry.roster) :
    ∃ place mailbox, world.mailboxOf? thread = some place ∧
      world.mailboxAt? place = some mailbox ∧ mailbox.reserve = registry.reserve := by
  have hlisted : thread ∈ enrolledIn target (history.map Prod.snd) := by
    rw [← hrun.roster, World.ledger_roster hregistry]
    exact Array.mem_toList_iff.mpr hthread
  obtain ⟨number, story, hown, henrolled⟩ := Registry.creator_of_enrolled hrun hlisted
  rw [← enrolledIn_course (.create target)] at henrolled
  obtain ⟨_, serial, place, _, _, hborn⟩ := (hrun.begins hown).birth_of_create henrolled
  have hstory := (Operation.mem_course.mp hborn).1
  obtain ⟨_, shape, hsame, hseen, hnew⟩ := hrun.housed hown hstory
  cases hsame
  have hreads : world.registryShape? target = some shape :=
    hrun.bears _ (hrun.mem_history hown hseen)
  obtain rfl : registry.shape = shape :=
    Option.some.inj ((congrArg (Option.map Registry.shape) hregistry).symm.trans hreads)
  have hmade : world.reserveOf? place = some registry.reserve :=
    hrun.bears _ (hrun.mem_history hown hnew)
  obtain ⟨mailbox, hmailbox, hfound⟩ := Option.map_eq_some_iff.mp hmade
  exact ⟨place, mailbox, (hrun.bears _ (hrun.mem_history hown hstory)).2, hmailbox, hfound⟩

/-- A thread that an engine of a table lists has a mailbox with the reserve of the table. -/
theorem mailbox_of_listed {index : Nat} {config : Config} {modes : List Mode} {table : Table}
    {engine : Ref .engine} {target : Ref .registry} {registry : Registry}
    (hrun : Runs {} history world flows)
    (htable : (index, .finished (.buildTable config modes) (.ok table)) ∈ history)
    (hengine : engine ∈ table.engines) (htarget : world.registryOf? engine = some target)
    (hregistry : world.registryAt? target = some registry) (hthread : thread ∈ registry.roster) :
    ∃ place mailbox, world.mailboxOf? thread = some place ∧
      world.mailboxAt? place = some mailbox ∧ mailbox.reserve = config.mailboxReserve := by
  obtain ⟨place, mailbox, howner, hmailbox, hreserve⟩ := hrun.mailbox_of_roster hregistry hthread
  obtain ⟨threads, hshape, hsame⟩ := hrun.registry_of_engine htable hengine htarget
  obtain rfl : registry.shape = threads :=
    Option.some.inj ((congrArg (Option.map Registry.shape) hregistry).symm.trans hshape)
  exact ⟨place, mailbox, howner, hmailbox, hreserve.trans hsame⟩

end Runs

end CoreEngines
