import CoreEngines.Inspection
import CoreEngines.Proofs.Identity.Coherence
import CoreEngines.Proofs.Identity.Naming
import CoreEngines.Proofs.Text.Numerals

/-!
Printed identities.  The text of an identifier can be read back, so it is the text of no other; and
the text of a handle says whether it refers to a thread, and to which.  Since the threads of a table
have identifiers of their own, no text that prints one of them can be taken for one that prints
another.
-/

namespace CoreEngines

namespace ThreadId

/-- The identifier that is printed as `text`. -/
def named? (text : String) : Option ThreadId :=
  let digits := text.toList.drop 1
  let core := Nat.ofDigitChars 10 (digits.takeWhile Char.isDigit) 0
  let rest := (digits.dropWhile Char.isDigit).drop 1
  let serial := Nat.ofDigitChars 10 (rest.takeWhile Char.isDigit) 0
  let id : ThreadId := ⟨⟨.ofNat core⟩, .ofNat serial⟩
  if id.display = text then some id else none

theorem toList_display (id : ThreadId) :
    id.display.toList = '<' :: (Nat.toDigits 10 id.core.number.toNat ++
      '.' :: (Nat.toDigits 10 id.serial.toNat ++ ['>'])) := by
  simp [display]

end ThreadId

theorem Text.span_numeral (number : Nat) (mark : Char) (rest : List Char)
    (hmark : mark.isDigit = false) :
    (Nat.toDigits 10 number ++ mark :: rest).takeWhile Char.isDigit = Nat.toDigits 10 number ∧
      (Nat.toDigits 10 number ++ mark :: rest).dropWhile Char.isDigit = mark :: rest := by
  have hdigits : ∀ char ∈ Nat.toDigits 10 number, char.isDigit := fun char hmem =>
    Nat.isDigit_of_mem_toDigits (by decide) (by decide) hmem
  rw [List.takeWhile_append_of_pos hdigits, List.dropWhile_append_of_pos hdigits]
  simp [hmark]

namespace ThreadId

/-- Core and serial can be read off the text of an identifier, and no other text is read. -/
theorem named?_eq_some {text : String} {id : ThreadId} :
    named? text = some id ↔ text = id.display := by
  constructor
  · intro hnamed
    simp only [named?, Option.ite_none_right_eq_some] at hnamed
    obtain ⟨htext, hid⟩ := hnamed
    rw [← htext, Option.some.inj hid]
  · rintro rfl
    obtain ⟨hcore, hrest⟩ := Text.span_numeral id.core.number.toNat '.'
      (Nat.toDigits 10 id.serial.toNat ++ ['>']) rfl
    obtain ⟨hserial, -⟩ := Text.span_numeral id.serial.toNat '>' [] rfl
    simp [named?, toList_display, hcore, hrest, hserial]

theorem display_inj {id id' : ThreadId} : id.display = id'.display ↔ id = id' := by
  refine ⟨fun hsame => ?_, fun hsame => hsame ▸ rfl⟩
  have hnamed := named?_eq_some.mpr (rfl : id.display = id.display)
  rw [hsame, named?_eq_some.mpr rfl] at hnamed
  exact (Option.some.inj hnamed).symm

end ThreadId

/-- The handle refers to no thread, or to one that is there. -/
def World.Holds (world : World) (handle : Handle) : Prop :=
  ∀ thread ∈ handle.thread?, ∃ id, world.threadId? thread = some id

namespace World

variable {world world' : World} {handle handle' : Handle}

/-- What a handle shows says which identifier its thread has, if it refers to one. -/
theorem inspectHandle_inj :
    world.inspectHandle handle = world'.inspectHandle handle' ↔
      handle.thread?.bind world.threadId? = handle'.thread?.bind world'.threadId? := by
  refine ⟨fun hsame => ?_, fun hsame => by rw [inspectHandle, hsame]; rfl⟩
  have hshown : (handle.thread?.bind world.threadId?).elim "empty" ThreadId.display =
      (handle'.thread?.bind world'.threadId?).elim "empty" ThreadId.display := by
    simpa [inspectHandle] using hsame
  -- No identifier is printed as that a handle is empty, because it begins with an angle bracket.
  have hempty : ∀ id : ThreadId, id.display ≠ "empty" := by
    intro id hid
    have hchars := congrArg String.toList hid
    rw [ThreadId.toList_display] at hchars
    cases hchars
  cases hleft : handle.thread?.bind world.threadId? with
  | none =>
      cases hright : handle'.thread?.bind world'.threadId? with
      | none => rfl
      | some id =>
          rw [hleft, hright] at hshown
          exact absurd hshown.symm (hempty id)
  | some id =>
      cases hright : handle'.thread?.bind world'.threadId? with
      | none =>
          rw [hleft, hright] at hshown
          exact absurd hshown (hempty id)
      | some id' =>
          rw [hleft, hright] at hshown
          rw [ThreadId.display_inj.mp hshown]

/-- Two handles show the same if both are empty, or if both refer to threads with one
identifier. -/
theorem inspectHandle_eq_iff (hholds : world.Holds handle) (hholds' : world'.Holds handle') :
    world.inspectHandle handle = world'.inspectHandle handle' ↔
      (handle = .empty ∧ handle' = .empty) ∨ ∃ thread thread' id, handle = .thread thread ∧
        handle' = .thread thread' ∧ world.threadId? thread = some id ∧
          world'.threadId? thread' = some id := by
  rw [inspectHandle_inj]
  cases handle with
  | empty =>
      cases handle' with
      | empty => simp [Handle.thread?]
      | thread thread' =>
          obtain ⟨id, hid⟩ := hholds' thread' rfl
          simp [Handle.thread?, hid]
  | thread thread =>
      obtain ⟨id, hid⟩ := hholds thread rfl
      cases handle' with
      | empty => simp [Handle.thread?, hid]
      | thread thread' =>
          obtain ⟨id', hid'⟩ := hholds' thread' rfl
          simp [Handle.thread?, hid, hid', eq_comm]

def Mentions (world : World) (event : TraceEvent) (thread : Ref .thread) : Prop :=
  ∃ id, event.thread? = some id ∧ world.threadId? thread = some id

def Blames (world : World) (failure : Failure) (thread : Ref .thread) : Prop :=
  ∃ id, failure.thread? = some id ∧ world.threadId? thread = some id

end World

theorem TraceEvent.lookup_thread {event : TraceEvent} {id : ThreadId}
    (hid : event.thread? = some id) : event.fields.lookup "thread" = some id.display := by
  cases event with
  | threadCreated thread =>
      cases hid
      rfl
  | threadAdmitted thread sched =>
      cases hid
      rfl
  | _ => cases hid

theorem Failure.eq_admittedTwice {failure : Failure} {id : ThreadId}
    (hid : failure.thread? = some id) : failure = .violation (.admittedTwice id) := by
  cases failure with
  | violation cause =>
      cases cause with
      | admittedTwice thread =>
          cases hid
          rfl
      | _ => cases hid
  | _ => cases hid

theorem Failure.display_admittedTwice (id : ThreadId) :
    (violation (.admittedTwice id)).display =
      ExceptionClass.error.display ++ ":" ++ ExceptionGroup.brokenInvariant.label ++ " - " ++
        ("thread " ++ id.display ++ " admitted twice") :=
  rfl

theorem Failure.display_inj {failure failure' : Failure} {id id' : ThreadId}
    (hid : failure.thread? = some id) (hid' : failure'.thread? = some id') :
    failure.display = failure'.display ↔ id = id' := by
  rw [eq_admittedTwice hid, eq_admittedTwice hid', display_admittedTwice, display_admittedTwice,
    String.append_right_inj, String.append_left_inj, String.append_right_inj]
  exact ThreadId.display_inj

namespace Table

/-- No text that prints a thread of the table can be taken for one that prints another. -/
structure ToldApart (table : Table) (world : World) (history : History) : Prop where
  /-- Every thread that was created has an identifier. -/
  identified : ∀ {number thread}, table.Creates world history number thread →
    ∃ id, world.threadId? thread = some id
  /-- The identifiers of two of them are printed differently, and so are their handles. -/
  shown : ∀ {number other thread thread' id id'}, table.Creates world history number thread →
    table.Creates world history other thread' → thread ≠ thread' →
      world.threadId? thread = some id → world.threadId? thread' = some id' →
        id.display ≠ id'.display ∧ id.inspect ≠ id'.inspect ∧
          world.inspectHandle (.thread thread) ≠ world.inspectHandle (.thread thread')
  /-- An entry of the trace that prints one of them differs from an entry that prints the other. -/
  traced : ∀ {number other thread thread' event event'},
    table.Creates world history number thread → table.Creates world history other thread' →
      thread ≠ thread' → world.Mentions event thread → world.Mentions event' thread' →
        event.fields.lookup "thread" ≠ event'.fields.lookup "thread"
  /-- So does the failure that one of them was admitted twice from that of the other. -/
  refused : ∀ {number other thread thread' failure failure'},
    table.Creates world history number thread → table.Creates world history other thread' →
      thread ≠ thread' → world.Blames failure thread → world.Blames failure' thread' →
        failure.display ≠ failure'.display
  /-- Every entry that prints an identifier prints that of a thread. -/
  reported : ∀ {event}, .reported event ∈ history.map Prod.snd → event.thread?.isSome →
    ∃ thread, world.Mentions event thread
  /-- Every failure that prints an identifier prints that of a thread, unless it is the failure of a
  callback. -/
  failed : ∀ {number operation story failure},
    (Journal.ofHistory history).own number = .started operation :: story →
      .finished operation (.error failure) ∈ story → failure.thread?.isSome →
        (∃ thread, world.Blames failure thread) ∨
          ∃ callback, .answered callback (.error failure) ∈ story

section
variable {history : History} {world : World} {flows : Nat → Flow} {table : Table} {index : Nat}
  {config : Config} {modes : List Mode} {number other : Nat} {thread thread' : Ref .thread}

/-- Threads of a table that are not one thread do not have one identifier. -/
theorem Creates.id_ne {id id' : ThreadId} (hrun : Runs {} history world flows)
    (htable : (index, .finished (.buildTable config modes) (.ok table)) ∈ history)
    (hmodes : modes.length < UInt32.size) (hspares : table.Spares world history)
    (hcreates : table.Creates world history number thread)
    (hcreates' : table.Creates world history other thread') (hne : thread ≠ thread')
    (hid : world.threadId? thread = some id) (hid' : world.threadId? thread' = some id') :
    id ≠ id' := by
  rintro rfl
  obtain ⟨_, _, _, _, hcreation⟩ := hcreates.creation hrun htable hmodes
  obtain ⟨_, _, _, _, hcreation'⟩ := hcreates'.creation hrun htable hmodes
  obtain rfl := hcreation.number_eq hrun hspares hcreation' (hid.trans hid'.symm)
  exact hne (hcreates.thread_eq hrun hcreates')

theorem toldApart_of_runs (hrun : Runs {} history world flows)
    (htable : (index, .finished (.buildTable config modes) (.ok table)) ∈ history)
    (hmodes : modes.length < UInt32.size) (hspares : table.Spares world history) :
    table.ToldApart world history where
  identified hcreates := by
    obtain ⟨_, _, _, _, hcreation⟩ := hcreates.creation hrun htable hmodes
    exact ⟨_, hcreation.named⟩
  shown hcreates hcreates' hne hid hid' := by
    have hids := hcreates.id_ne hrun htable hmodes hspares hcreates' hne hid hid'
    have hdisplay := mt ThreadId.display_inj.mp hids
    refine ⟨hdisplay, hdisplay, mt World.inspectHandle_inj.mp ?_⟩
    simpa [Handle.thread?, hid, hid'] using hids
  traced := by
    rintro _ _ _ _ event event' hcreates hcreates' hne ⟨id, hevent, hid⟩ ⟨id', hevent', hid'⟩
    have hids := hcreates.id_ne hrun htable hmodes hspares hcreates' hne hid hid'
    rw [TraceEvent.lookup_thread hevent, TraceEvent.lookup_thread hevent']
    exact fun hsame => hids (ThreadId.display_inj.mp (Option.some.inj hsame))
  refused := by
    rintro _ _ _ _ failure failure' hcreates hcreates' hne ⟨id, hfailure, hid⟩
      ⟨id', hfailure', hid'⟩
    have hids := hcreates.id_ne hrun htable hmodes hspares hcreates' hne hid hid'
    exact mt (Failure.display_inj hfailure hfailure').mp hids
  reported hmem hsome := by
    obtain ⟨id, hid⟩ := Option.isSome_iff_exists.mp hsome
    exact (hrun.exists_of_reported hmem hid).imp fun thread hthread => ⟨id, hid, hthread⟩
  failed hown hmem hsome := by
    obtain ⟨id, hid⟩ := Option.isSome_iff_exists.mp hsome
    refine (hrun.exists_of_failed hown hmem hid).imp_left fun hthere => ?_
    exact hthere.imp fun thread hthread => ⟨id, hid, hthread⟩

end

end Table

/-- Printed identities are unambiguous: the texts of two identifiers are equal exactly if the
identifiers are, core and serial can be read off the text, the texts of two handles are equal
exactly if both are empty or refer to threads with one identifier, and no two threads of a table are
printed alike. -/
theorem ThreadId.unambiguous :
    (∀ left right : ThreadId, (left.display = right.display ↔ left = right) ∧
      (left.inspect = right.inspect ↔ left = right)) ∧
    (∀ text id, ThreadId.named? text = some id ↔ text = id.display) ∧
    (∀ {world world' : World} {handle handle' : Handle}, world.Holds handle →
      world'.Holds handle' →
        (world.inspectHandle handle = world'.inspectHandle handle' ↔
          (handle = .empty ∧ handle' = .empty) ∨ ∃ thread thread' id, handle = .thread thread ∧
            handle' = .thread thread' ∧ world.threadId? thread = some id ∧
              world'.threadId? thread' = some id)) ∧
    ∀ {count : Nat} {moves : List (Nat × Move)} {machine : Machine} {history : History}
      {index : Nat} {config : Config} {modes : List Mode} {table : Table},
      (Machine.idle {} count).run? moves = some (machine, history) →
        (index, .finished (.buildTable config modes) (.ok table)) ∈ history →
          modes.length < UInt32.size → table.Spares machine.world history →
            table.ToldApart machine.world history :=
  ⟨fun _ _ => ⟨ThreadId.display_inj, ThreadId.display_inj⟩, fun _ _ => ThreadId.named?_eq_some,
    World.inspectHandle_eq_iff, fun hrun htable hmodes hspares =>
      Table.toldApart_of_runs (Machine.runs_of_run? hrun) htable hmodes hspares⟩

/-- The two threads of one engine, and the first thread of another. -/
theorem ThreadId.unambiguous_concurrentCreations : ∃ machine history table,
    (Machine.idle {} 2).run? Table.concurrentCreations = some (machine, history) ∧
      (0, .finished (.buildTable {} [.execution, .execution]) (.ok table)) ∈ history ∧
        table.Spares machine.world history ∧
          [0, 1, 2].map (fun thread => machine.world.inspectHandle (.thread ⟨thread⟩)) =
            ["ThreadRef(<0.1>)", "ThreadRef(<1.1>)", "ThreadRef(<0.2>)"] ∧
              table.ToldApart machine.world history := by
  have hsome : ((Machine.idle {} 2).run? Table.concurrentCreations).isSome := by rfl
  obtain ⟨⟨machine, history⟩, hrun⟩ := Option.isSome_iff_exists.mp hsome
  have hbuilt : (((Machine.idle {} 2).run? Table.concurrentCreations).bind fun outcome =>
      outcome.2[8]?) =
        some (0, .finished (.buildTable {} [.execution, .execution]) (.ok ⟨#[⟨0⟩, ⟨1⟩]⟩)) := by rfl
  have hlength : (((Machine.idle {} 2).run? Table.concurrentCreations).map fun outcome =>
      outcome.2.length) = some 51 := by rfl
  have hshown : (((Machine.idle {} 2).run? Table.concurrentCreations).map fun outcome =>
      [0, 1, 2].map fun thread => outcome.1.world.inspectHandle (.thread ⟨thread⟩)) =
        some ["ThreadRef(<0.1>)", "ThreadRef(<1.1>)", "ThreadRef(<0.2>)"] := by rfl
  rw [hrun] at hbuilt hlength hshown
  replace hlength : history.length = 51 := Option.some.inj hlength
  have htable := List.mem_of_getElem? hbuilt
  have hspares : Table.Spares ⟨#[⟨0⟩, ⟨1⟩]⟩ machine.world history := by
    intro engine hengine target registry htarget hregistry
    refine Nat.lt_of_le_of_lt List.countP_le_length ?_
    rw [List.length_map, hlength]
    decide
  exact ⟨machine, history, _, hrun, htable, hspares, Option.some.inj hshown,
    ThreadId.unambiguous.2.2.2 hrun htable (by decide) hspares⟩

end CoreEngines
