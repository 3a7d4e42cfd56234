import CoreEngines.Proofs.Locks.Reentry
import CoreEngines.Proofs.Modest
import CoreEngines.Proofs.Storage.Slots
import CoreEngines.Proofs.Tellings

/-!
Visits to slots.  An operation that uses a local storage finds out which slot is in use, and visits
this slot once: it takes the lock, reads the slot, writes it back and returns the lock.  Where it
finds no slot it touches none.
-/

namespace CoreEngines

open LocalStorage (Command)

namespace StorageSlot

/-- A visit to a slot that held `storage`. -/
def visit (slot : StorageSlot) (storage : LocalStorage) (command : Command) : List Happening :=
  [.acted (.acquire slot.lock) (), slot.reads storage, slot.writes (storage.run command).2,
   .acted (.release slot.lock) ()]

end StorageSlot

/-- How a call finds the slot that is in use on an engine: what it does, and what comes of it. -/
inductive Engine.Selects (engine : Ref .engine) : List Happening → Except Failure StorageSlot → Prop
  | bootstrap : Selects engine [.acted (.engine engine .context) none] (.ok (.bootstrap engine))
  | running (context : Ref .context) (shape : ContextShape) (thread : Ref .thread) :
      Selects engine [.acted (.engine engine .context) (some context),
        .acted (.context context .shape) shape,
        .answered (.currentThread shape.manager) (.ok (some (.thread thread)))]
        (.ok (.thread thread))
  | empty (context : Ref .context) (shape : ContextShape) :
      Selects engine [.acted (.engine engine .context) (some context),
        .acted (.context context .shape) shape,
        .answered (.currentThread shape.manager) (.ok (some .empty))]
        (.error (.violation .emptyHandle))
  | nobody (context : Ref .context) (shape : ContextShape) (own : EngineShape) :
      Selects engine [.acted (.engine engine .context) (some context),
        .acted (.context context .shape) shape,
        .answered (.currentThread shape.manager) (.ok none),
        .acted (.engine engine .shape) own]
        (.error (.violation (.noThreadRunning own.core)))
  | failed (context : Ref .context) (shape : ContextShape) (cause : Failure) :
      Selects engine [.acted (.engine engine .context) (some context),
        .acted (.context context .shape) shape,
        .answered (.currentThread shape.manager) (.error cause)]
        (.error cause)

namespace Operation

/-- The access to a local storage that an operation is there for. -/
def command? : Operation → Option Command
  | storage _ command => some command
  | localGet _ key => some (.get key)
  | localSet _ key value => some (.set key value)
  | _ => none

/-- How an operation finds the slot that it is to use.  One that names a thread has nothing to look
for. -/
def Finds : Operation → List Happening → Except Failure StorageSlot → Prop
  | storage thread _, way, found => way = [] ∧ found = .ok (.thread thread)
  | localGet engine _, way, found | localSet engine _ _, way, found =>
      Engine.Selects engine way found
  | _, _, _ => False

/-- What an operation that found this under its key may return. -/
def Replies : (operation : Operation) → Option UInt64 → operation.Reply → Prop
  | storage _ _, held, reply | localGet _ _, held, reply => reply = held
  | _, _, _ => True

/-- The stories of an operation that uses a local storage, and how they end. -/
inductive StorageStory (operation : Operation) (command : Command) :
    List Happening → Except Failure operation.Reply → Prop
  | served {way : List Happening} {slot : StorageSlot} {storage : LocalStorage}
      {reply : operation.Reply} (hfinds : operation.Finds way (.ok slot))
      (hreplies : operation.Replies (storage.get? command.key) reply) :
      StorageStory operation command (way ++ slot.visit storage command) (.ok reply)
  | refused {way : List Happening} {failure : Failure}
      (hfinds : operation.Finds way (.error failure)) :
      StorageStory operation command way (.error failure)

end Operation

section
variable {operation : Operation} {command : Command} {story way made : List Happening}
  {found : Except Failure StorageSlot} {slot : StorageSlot} {storage : LocalStorage}

open Program

theorem StorageSlot.use_straight (slot : StorageSlot) (command : Command) :
    (slot.use (·.run command)).Straight := by
  cases slot <;>
    exact Within.locked (Within.bind (Within.perform (by simp)) fun _ =>
      Within.bind (Within.perform (by simp)) fun _ => Within.pure _) (by simp) (by simp)

theorem Engine.storageSlot_straight (engine : Ref .engine) : (storageSlot engine).Straight := by
  apply Within.bind (Within.perform (by simp))
  intro context
  split
  · exact Within.pure _
  · apply Within.bind
    · exact Within.bind (Within.perform (by simp)) fun _ => Within.request (by simp)
    · intro current
      split
      case h_1 handle =>
        apply Within.bind _ fun _ => Within.pure _
        cases handle with
        | empty => exact Within.raise _
        | thread thread => exact Within.pure _
      case h_2 => exact Within.bind (Within.perform (by simp)) fun _ => Within.raise _

theorem StorageSlot.tells_use {result : Except Failure (Option UInt64)}
    (htells : (slot.use (·.run command)).Tells story result) :
    ∃ storage, story = slot.visit storage command ∧ result = .ok (storage.get? command.key) := by
  cases slot <;>
    · obtain ⟨_, ⟨storage, _, rfl, _, _, rfl, rfl, rfl⟩, rfl⟩ := (tells_locked _ _ _ _).mp htells
      exact ⟨storage, rfl, congrArg Except.ok (storage.run_fst command)⟩

theorem Engine.tells_storageSlot {engine : Ref .engine}
    (htells : (storageSlot engine).Tells story found) : Selects engine story found := by
  obtain ⟨seen, _, rfl, htells⟩ := htells
  cases seen with
  | none =>
      obtain ⟨rfl, rfl⟩ := htells
      exact .bootstrap
  | some context =>
      obtain ⟨_, current, _, ⟨shape, _, rfl, hasked⟩, hfound, rfl⟩ |
        ⟨cause, ⟨shape, _, rfl, hasked⟩, rfl⟩ := (tells_bind _ _ _ _).mp htells
      · obtain rfl := (tells_request _ _ _).mp hasked
        cases current with
        | none =>
            obtain ⟨own, _, rfl, rfl, rfl⟩ := hfound
            exact .nobody context shape own
        | some handle =>
            cases handle with
            | empty =>
                obtain ⟨rfl, rfl⟩ := hfound
                exact .empty context shape
            | thread thread =>
                obtain ⟨rfl, rfl⟩ := hfound
                exact .running context shape thread
      · obtain rfl := (tells_request _ _ _).mp hasked
        exact .failed context shape cause

namespace Operation

theorem command?_of_stores (hstores : operation.stores = true) :
    ∃ command, operation.command? = some command := by
  cases operation <;> first | exact ⟨_, rfl⟩ | cases hstores

theorem straight_of_command (hcommand : operation.command? = some command) :
    operation.Straight := by
  cases operation with
  | storage thread command => exact StorageSlot.use_straight (.thread thread) command
  | localGet engine key =>
      exact Within.bind (Engine.storageSlot_straight engine) fun slot => slot.use_straight _
  | localSet engine key value =>
      exact Within.bind (Engine.storageSlot_straight engine) fun slot =>
        Within.bind (slot.use_straight _) fun _ => Within.pure _
  | _ => cases hcommand

/-- An operation that uses a local storage tells the story of a visit, or finds none to visit. -/
theorem storageStory_of_tells {result : Except Failure operation.Reply}
    (hcommand : operation.command? = some command)
    (htells : operation.program.Tells story result) :
    operation.StorageStory command story result := by
  cases operation with
  | storage thread command =>
      cases hcommand
      have hused : ((StorageSlot.thread thread).use (·.run command)).Tells story result := htells
      obtain ⟨storage, rfl, rfl⟩ := StorageSlot.tells_use hused
      have hfinds : (Operation.storage thread command).Finds [] (.ok (.thread thread)) :=
        ⟨rfl, rfl⟩
      exact .served hfinds rfl
  | localGet engine key =>
      cases hcommand
      obtain ⟨way, slot, _, hslot, hused, rfl⟩ | ⟨failure, hslot, rfl⟩ :=
        (tells_bind _ _ _ _).mp htells
      · obtain ⟨storage, rfl, rfl⟩ := StorageSlot.tells_use hused
        exact .served (Engine.tells_storageSlot hslot) rfl
      · exact .refused (Engine.tells_storageSlot hslot)
  | localSet engine key value =>
      cases hcommand
      obtain ⟨way, slot, _, hslot, hused, rfl⟩ | ⟨failure, hslot, rfl⟩ :=
        (tells_bind _ _ _ _).mp htells
      · obtain ⟨_, _, _, hset, ⟨rfl, rfl⟩, rfl⟩ | ⟨failure, hfails, rfl⟩ :=
          (tells_bind _ _ _ _).mp hused
        · obtain ⟨storage, rfl, _⟩ := StorageSlot.tells_use hset
          rw [List.append_nil]
          exact .served (Engine.tells_storageSlot hslot) trivial
        · obtain ⟨_, _, hfailed⟩ := StorageSlot.tells_use hfails
          cases hfailed
      · exact .refused (Engine.tells_storageSlot hslot)
  | _ => cases hcommand

/-- Finding a slot uses no storage and no lock. -/
theorem Finds.bare (hfinds : operation.Finds way found) {happening : Happening}
    (hmem : happening ∈ way) :
    happening.isStep ∧ happening.Storeless ∧ ∀ held, happening.locks held = held := by
  have hselects : ∀ {engine}, Engine.Selects engine way found →
      happening.isStep ∧ happening.Storeless ∧ ∀ held, happening.locks held = held := by
    intro engine hselects
    cases hselects <;>
      simp only [List.mem_cons, List.not_mem_nil, or_false] at hmem
    case bootstrap =>
      subst hmem
      exact ⟨rfl, trivial, fun _ => rfl⟩
    case nobody context shape own =>
      rcases hmem with rfl | rfl | rfl | rfl <;> exact ⟨rfl, trivial, fun _ => rfl⟩
    all_goals rcases hmem with rfl | rfl | rfl <;> exact ⟨rfl, trivial, fun _ => rfl⟩
  cases operation with
  | storage thread command => simp [hfinds.1] at hmem
  | localGet engine key => exact hselects hfinds
  | localSet engine key value => exact hselects hfinds
  | _ => exact hfinds.elim

theorem Finds.locks (hfinds : operation.Finds way found) : way.foldl Happening.locks [] = [] := by
  have hbare := fun happening (hmem : happening ∈ way) => (hfinds.bare hmem).2.2
  clear hfinds
  induction way with
  | nil => rfl
  | cons first way ih =>
      obtain ⟨hfirst, hway⟩ := List.forall_mem_cons.mp hbare
      rw [List.foldl_cons, hfirst]
      exact ih hway

theorem Finds.approach (hfinds : operation.Finds way found) (lock : Lock) {happening : Happening}
    (hmem : happening ∈ .started operation :: (way ++ [.acted (.acquire lock) ()])) :
    happening.Storeless := by
  rcases List.mem_cons.mp hmem with rfl | hmem
  · exact trivial
  · rcases List.mem_append.mp hmem with hway | hmem
    · exact (hfinds.bare hway).2.1
    · exact List.mem_singleton.mp hmem ▸ trivial

end Operation

section
variable {other : StorageSlot} {storage' : LocalStorage}

@[simp]
theorem StorageSlot.reads_inj :
    slot.reads storage = other.reads storage' ↔ slot = other ∧ storage = storage' := by
  cases slot <;> cases other <;> simp [reads]

@[simp]
theorem StorageSlot.writes_inj :
    slot.writes storage = other.writes storage' ↔ slot = other ∧ storage = storage' := by
  cases slot <;> cases other <;> simp [writes]

@[simp]
theorem StorageSlot.reads_ne_writes : slot.reads storage ≠ other.writes storage' := by
  cases slot <;> cases other <;> simp [reads, writes]

theorem StorageSlot.reads_storing :
    (slot.reads storage).isStep ∧ ¬ (slot.reads storage).Storeless := by
  cases slot <;> exact ⟨rfl, id⟩

theorem StorageSlot.writes_storing :
    (slot.writes storage).isStep ∧ ¬ (slot.writes storage).Storeless := by
  cases slot <;> exact ⟨rfl, id⟩

end

namespace Runs

variable {history : History} {world : World} {flows : Nat → Flow} {number : Nat}

/-- What an operation that uses a local storage has done is the beginning of such a story. -/
theorem storageStory (hrun : Runs {} history world flows)
    (hcommand : operation.command? = some command)
    (hown : (Journal.ofHistory history).own number = .started operation :: story) :
    ∃ whole result, operation.StorageStory command whole result ∧
      story <+: whole ++ [.finished operation result] := by
  obtain ⟨whole, result, htells, hstory⟩ :=
    hrun.tells (Operation.straight_of_command hcommand) hown
  exact ⟨whole, result, Operation.storageStory_of_tells hcommand htells, hstory⟩

/-- Whoever uses a storage visits the slot that it has found. -/
theorem visit_of_storing {happening : Happening} (hrun : Runs {} history world flows)
    (hmem : happening ∈ (Journal.ofHistory history).own number)
    (hstoring : happening.isStep ∧ ¬ happening.Storeless) :
    ∃ operation command way slot storage, ∃ reply : operation.Reply,
      operation.command? = some command ∧ operation.Finds way (.ok slot) ∧
        operation.Replies (storage.get? command.key) reply ∧
        (Journal.ofHistory history).own number <+: .started operation ::
          (way ++ slot.visit storage command ++ [.finished operation (.ok reply)]) ∧
        (happening = slot.reads storage ∨ happening = slot.writes (storage.run command).2) := by
  obtain ⟨hstep, hstoring⟩ := hstoring
  obtain hnone | ⟨operation, story, hown⟩ := hrun.own_cases number
  · rw [hnone] at hmem
    cases hmem
  · have hstory : happening ∈ story := by
      rcases List.mem_cons.mp (hown ▸ hmem) with rfl | hmem
      · exact absurd trivial hstoring
      · exact hmem
    obtain ⟨command, hcommand⟩ :=
      Operation.command?_of_stores (hrun.stores hown hstory hstep hstoring)
    obtain ⟨whole, result, hwhole, hlonger⟩ := hrun.storageStory hcommand hown
    have hin : happening ∈ whole := by
      rcases List.mem_append.mp (hlonger.mem hstory) with hin | hlast
      · exact hin
      · cases List.mem_singleton.mp hlast
        cases hstep
    cases hwhole with
    | @served way slot storage reply hfinds hreplies =>
        refine ⟨operation, command, way, slot, storage, reply, hcommand, hfinds, hreplies, ?_, ?_⟩
        · rw [hown]
          exact List.cons_prefix_cons.mpr ⟨rfl, hlonger⟩
        · rcases List.mem_append.mp hin with hway | hin
          · exact absurd (hfinds.bare hway).2.1 hstoring
          · simp only [StorageSlot.visit, List.mem_cons, List.not_mem_nil, or_false] at hin
            rcases hin with rfl | rfl | rfl | rfl
            · exact absurd trivial hstoring
            · exact Or.inl rfl
            · exact Or.inr rfl
            · exact absurd trivial hstoring
    | refused hfinds => exact absurd (hfinds.bare hin).2.1 hstoring

/-- An operation that has just read a slot has found it, and has its lock. -/
theorem visit_of_reads (hrun : Runs {} history world flows)
    (hown : (Journal.ofHistory history).own number = made ++ [slot.reads storage]) :
    ∃ operation command way, operation.command? = some command ∧ operation.Finds way (.ok slot) ∧
      made = .started operation :: (way ++ [.acted (.acquire slot.lock) ()]) := by
  obtain ⟨operation, command, way, place, held, reply, hcommand, hfinds, _, ⟨rest, hstory⟩,
    hlast⟩ :=
    hrun.visit_of_storing (hown ▸ List.mem_append_right _ (List.mem_singleton_self _))
      StorageSlot.reads_storing
  have hreads : slot.reads storage = place.reads held := by simpa using hlast
  obtain ⟨rfl, rfl⟩ := StorageSlot.reads_inj.mp hreads
  refine ⟨operation, command, way, hcommand, hfinds, ?_⟩
  have hsplit : made ++ slot.reads storage :: rest =
      (.started operation :: (way ++ [.acted (.acquire slot.lock) ()])) ++ slot.reads storage ::
        [slot.writes (storage.run command).2, .acted (.release slot.lock) (),
          .finished operation (.ok reply)] := by
    rw [hown] at hstory
    simpa [StorageSlot.visit] using hstory
  refine ((List.append_cons_inj_of_notMem ?_ ?_).mp hsplit.symm).1.symm
  · exact fun hmem => StorageSlot.reads_storing.2 (hfinds.approach slot.lock hmem)
  · cases slot <;> simp [StorageSlot.reads, StorageSlot.writes]

/-- An operation that has just written a slot has read it right before. -/
theorem visit_of_writes (hrun : Runs {} history world flows)
    (hown : (Journal.ofHistory history).own number = made ++ [slot.writes storage]) :
    ∃ operation command way held, operation.command? = some command ∧
      operation.Finds way (.ok slot) ∧ storage = (held.run command).2 ∧
        made = .started operation ::
          (way ++ [.acted (.acquire slot.lock) ()]) ++ [slot.reads held] := by
  obtain ⟨operation, command, way, place, held, reply, hcommand, hfinds, _, ⟨rest, hstory⟩,
    hlast⟩ :=
    hrun.visit_of_storing (hown ▸ List.mem_append_right _ (List.mem_singleton_self _))
      StorageSlot.writes_storing
  have hwrites : slot.writes storage = place.writes (held.run command).2 :=
    hlast.resolve_left fun hreads => StorageSlot.reads_ne_writes hreads.symm
  obtain ⟨rfl, rfl⟩ := StorageSlot.writes_inj.mp hwrites
  refine ⟨operation, command, way, held, hcommand, hfinds, rfl, ?_⟩
  have hsplit : made ++ slot.writes (held.run command).2 :: rest =
      (.started operation :: (way ++ [.acted (.acquire slot.lock) ()]) ++ [slot.reads held]) ++
        slot.writes (held.run command).2 ::
          [.acted (.release slot.lock) (), .finished operation (.ok reply)] := by
    rw [hown] at hstory
    simpa [StorageSlot.visit] using hstory
  refine ((List.append_cons_inj_of_notMem ?_ ?_).mp hsplit.symm).1.symm
  · intro hmem
    rcases List.mem_append.mp hmem with hmem | hmem
    · exact StorageSlot.writes_storing.2 (hfinds.approach slot.lock hmem)
    · exact StorageSlot.reads_ne_writes (List.mem_singleton.mp hmem).symm
  · cases slot <;> simp [StorageSlot.writes]

/-- Who has just read a slot has its lock. -/
theorem locked_of_reads (hrun : Runs {} history world flows)
    (hown : (Journal.ofHistory history).own number = made ++ [slot.reads storage]) :
    slot.lock ∈ locksIn ((Journal.ofHistory history).own number) := by
  obtain ⟨operation, command, way, _, hfinds, rfl⟩ := hrun.visit_of_reads hown
  have hway : way.foldl Happening.locks [] = [] := hfinds.locks
  have hreads : ∀ held, (slot.reads storage).locks held = held := by
    cases slot <;> exact fun _ => rfl
  have hlocks : locksIn ((Journal.ofHistory history).own number) = [slot.lock] := by
    rw [hown, locksIn, List.foldl_append, List.foldl_cons, hreads, List.foldl_nil,
      List.foldl_cons, List.foldl_append]
    change slot.lock :: way.foldl Happening.locks [] = _
    rw [hway]
  simp [hlocks]

end Runs

end

end CoreEngines
