import CoreEngines.Proofs.Entry.Publication
import CoreEngines.Proofs.Storage.Accesses

/-!
Local storage over whole runs.  A call on an engine uses the bootstrap storage of the engine until a
context is published, and from then on that of the thread that the manager names.  Whatever slot it
uses, it finds there what was stored last; and where there is no thread it fails and touches no
storage at all.
-/

namespace CoreEngines

open LocalStorage (Command LastStored recalled)

def Operation.engine? : Operation → Option (Ref .engine)
  | enter engine | timerTick engine | requireContext engine | localGet engine _
  | localSet engine _ _ => some engine
  | _ => none

section
variable {history before after : History} {world later : World} {flows : Nat → Flow}
  {number : Nat} {operation : Operation} {command : Command} {slot : StorageSlot}
  {story way : List Happening} {target : Ref .engine} {place : Ref .context}

namespace Runs

/-- A call that has returned has told its whole story. -/
theorem storageStory_of_finished {result : Except Failure operation.Reply}
    (hrun : Runs {} history world flows) (hcommand : operation.command? = some command)
    (hown : (Journal.ofHistory history).own number = .started operation :: story)
    (hfinished : .finished operation result ∈ story) :
    ∃ whole, operation.StorageStory command whole result ∧
      story = whole ++ [.finished operation result] := by
  obtain ⟨whole, result', hwhole, hlonger⟩ := hrun.storageStory hcommand hown
  have hsteps : ∀ result', .finished operation result' ∉ whole := by
    intro result' hmem
    have hstep : (Happening.finished operation result').isStep := by
      cases hwhole with
      | @served way slot storage reply hfinds hreplies =>
          rcases List.mem_append.mp hmem with hway | hvisit
          · exact (hfinds.bare hway).1
          · cases slot <;> simp [StorageSlot.visit, StorageSlot.reads, StorageSlot.writes] at hvisit
      | refused hfinds => exact (hfinds.bare hmem).1
    cases hstep
  obtain rfl : result = result' := by
    rcases List.mem_append.mp (hlonger.mem hfinished) with hmem | hlast
    · exact absurd hmem (hsteps result)
    · cases List.mem_singleton.mp hlast
      rfl
  exact ⟨whole, hwhole, eq_of_mem_last hlonger hfinished (hsteps result)⟩

/-- Whoever reads or writes a slot has found it. -/
theorem finder {happening : Happening} {storage : LocalStorage}
    (hrun : Runs {} history world flows)
    (hmem : happening ∈ (Journal.ofHistory history).own number)
    (huses : happening = slot.reads storage ∨ happening = slot.writes storage) :
    ∃ operation command way story,
      (Journal.ofHistory history).own number = .started operation :: story ∧
        operation.command? = some command ∧ operation.Finds way (.ok slot) ∧ way <+: story := by
  have hstoring : happening.isStep ∧ ¬ happening.Storeless := by
    rcases huses with rfl | rfl
    · exact StorageSlot.reads_storing
    · exact StorageSlot.writes_storing
  obtain ⟨operation, command, way, place, held, reply, hcommand, hfinds, _, hlonger, hlast⟩ :=
    hrun.visit_of_storing hmem hstoring
  obtain rfl : slot = place := by
    rcases huses with rfl | rfl
    · have hreads := hlast.resolve_right StorageSlot.reads_ne_writes
      exact (StorageSlot.reads_inj.mp hreads).1
    · have hwrites := hlast.resolve_left fun hreads => StorageSlot.reads_ne_writes hreads.symm
      exact (StorageSlot.writes_inj.mp hwrites).1
  obtain hnone | ⟨started, story, hown⟩ := hrun.own_cases number
  · rw [hnone] at hmem
    cases hmem
  · rw [hown] at hlonger hmem
    obtain ⟨hstarted, hmade⟩ := List.cons_prefix_cons.mp hlonger
    cases hstarted
    refine ⟨operation, command, way, story, hown, hcommand, hfinds, ?_⟩
    have hstory : happening ∈ story := by
      refine (List.mem_cons.mp hmem).resolve_left ?_
      rintro rfl
      cases hstoring.1
    rw [List.append_assoc] at hmade
    refine (List.prefix_or_prefix_of_prefix (List.prefix_append way _) hmade).resolve_right ?_
    exact fun hshort => hstoring.2 (hfinds.bare (hshort.mem hstory)).2.1

theorem finder_of_access (hrun : Runs {} history world flows)
    (haccess : (number, command) ∈ (Journal.ofHistory history).accesses slot) :
    ∃ operation way story, (Journal.ofHistory history).own number = .started operation :: story ∧
      operation.command? = some command ∧ operation.Finds way (.ok slot) ∧ way <+: story := by
  obtain ⟨⟨stored, hwrites⟩, hcommand⟩ := Journal.mem_accesses.mp haccess
  obtain ⟨operation, _, way, story, hown, hsome, hfinds, hway⟩ :=
    hrun.finder hwrites (Or.inr rfl)
  rw [Journal.command?_of_own hown] at hcommand
  exact ⟨operation, way, story, hown, hcommand, hfinds, hway⟩

/-- A call that has returned found what was stored last under its key. -/
theorem replied {reply : operation.Reply} (hrun : Runs {} history world flows)
    (hcommand : operation.command? = some command)
    (hown : (Journal.ofHistory history).own number = .started operation :: story)
    (hfinished : .finished operation (.ok reply) ∈ story) :
    ∃ way slot earlier later held, operation.Finds way (.ok slot) ∧ way <+: story ∧
      (Journal.ofHistory history).accesses slot = earlier ++ (number, command) :: later ∧
        operation.Replies held reply ∧
          ∀ value, held = some value ↔ LastStored command.key value (earlier.map Prod.snd) := by
  obtain ⟨whole, hwhole, rfl⟩ := hrun.storageStory_of_finished hcommand hown hfinished
  cases hwhole with
  | @served way slot storage _ hfinds hreplies =>
      have haccess : (number, command) ∈ (Journal.ofHistory history).accesses slot := by
        refine Journal.mem_accesses.mpr ⟨⟨(storage.run command).2, ?_⟩, ?_⟩
        · rw [hown]
          simp [StorageSlot.visit]
        · rw [Journal.command?_of_own hown, hcommand]
      obtain ⟨earlier, later, hposition⟩ := List.append_of_mem haccess
      obtain ⟨storage', hreads, hfound⟩ := hrun.found_of_access hposition
      obtain rfl : storage' = storage := by
        rw [hown] at hreads
        have hin : slot.reads storage' ∈ way ∨ slot.reads storage' = slot.reads storage := by
          cases slot <;>
            simpa [StorageSlot.visit, StorageSlot.reads, StorageSlot.writes] using hreads
        rcases hin with hway | hsame
        · exact absurd (hfinds.bare hway).2.1 StorageSlot.reads_storing.2
        · exact (StorageSlot.reads_inj.mp hsame).2
      refine ⟨way, slot, earlier, later, _, hfinds, ?_, hposition, hreplies, fun value => ?_⟩
      · rw [List.append_assoc]
        exact List.prefix_append _ _
      · rw [hfound, LocalStorage.recalled_eq_some]

/-- No operation makes more than one access to a slot. -/
theorem accesses_nodup (hrun : Runs {} history world flows) (slot : StorageSlot) :
    (((Journal.ofHistory history).accesses slot).map Prod.fst).Nodup := by
  refine (map_filterMap_sublist ?_ _).nodup hrun.writes_nodup
  rintro ⟨other, deed⟩ access haccess
  obtain ⟨_, hsome⟩ := Option.ite_none_right_eq_some.mp haccess
  obtain ⟨_, _, rfl⟩ := Option.map_eq_some_iff.mp hsome
  rfl

/-- nor does it access two slots. -/
theorem slot_unique {slot' : StorageSlot} {command' : Command}
    (hrun : Runs {} history world flows)
    (haccess : (number, command) ∈ (Journal.ofHistory history).accesses slot)
    (haccess' : (number, command') ∈ (Journal.ofHistory history).accesses slot') :
    slot = slot' := by
  obtain ⟨⟨stored, hwrites⟩, _⟩ := Journal.mem_accesses.mp haccess
  obtain ⟨⟨stored', hwrites'⟩, _⟩ := Journal.mem_accesses.mp haccess'
  have hsame := List.inj_on_of_nodup_map hrun.writes_nodup
    (Journal.mem_deeds.mpr ⟨_, hwrites, Happening.write?_eq_some.mpr rfl⟩)
    (Journal.mem_deeds.mpr ⟨_, hwrites', Happening.write?_eq_some.mpr rfl⟩) rfl
  cases hsame
  rfl

end Runs

/-- Only a call that has seen no context finds the bootstrap slot, and only that of its own
engine. -/
theorem Operation.Finds.bootstrap (hfinds : operation.Finds way (.ok (.bootstrap target))) :
    operation.engine? = some target ∧ way = [.acted (.engine target .context) none] := by
  cases operation with
  | storage thread command => cases hfinds.2
  | localGet engine key =>
      cases hfinds
      exact ⟨rfl, rfl⟩
  | localSet engine key value =>
      cases hfinds
      exact ⟨rfl, rfl⟩
  | _ => exact hfinds.elim

namespace Engine

/-- What becomes of a call to which the manager names no thread. -/
def unserved (core : CoreId) : Except Failure (Option Handle) → Option Failure
  | .error cause => some cause
  | .ok none => some (.violation (.noThreadRunning core))
  | .ok (some .empty) => some (.violation .emptyHandle)
  | .ok (some (.thread _)) => none

/-- What a call finds depends on what the manager answers. -/
theorem Selects.of_answer {manager : ManagerRef} {answer : Except Failure (Option Handle)}
    {found : Except Failure StorageSlot} (hselects : Selects target way found)
    (hanswer : .answered (.currentThread manager) answer ∈ way) :
    (∃ thread, answer = .ok (some (.thread thread)) ∧ found = .ok (.thread thread)) ∨
      ∃ core failure, unserved core answer = some failure ∧ found = .error failure ∧
        (answer = .ok none → ∃ shape : EngineShape, shape.core = core ∧
          .acted (.engine target .shape) shape ∈ way) := by
  cases hselects with
  | bootstrap => simp at hanswer
  | running context shape thread =>
      obtain ⟨_, rfl⟩ : _ ∧ answer = .ok (some (.thread thread)) := by simpa using hanswer
      exact Or.inl ⟨thread, rfl, rfl⟩
  | empty context shape =>
      obtain ⟨_, rfl⟩ : _ ∧ answer = .ok (some .empty) := by simpa using hanswer
      exact Or.inr ⟨⟨0⟩, _, rfl, rfl, nofun⟩
  | nobody context shape own =>
      obtain ⟨_, rfl⟩ : _ ∧ answer = .ok none := by simpa using hanswer
      exact Or.inr ⟨own.core, _, rfl, rfl, fun _ => ⟨own, rfl, by simp⟩⟩
  | failed context shape cause =>
      obtain ⟨_, rfl⟩ : _ ∧ answer = .error cause := by simpa using hanswer
      exact Or.inr ⟨⟨0⟩, _, rfl, rfl, nofun⟩

/-- A call on an engine finds its slot as the engine's state and its manager would have it. -/
theorem selects_of_finds {found : Except Failure StorageSlot}
    (hcommand : operation.command? = some command) (htarget : operation.engine? = some target)
    (hfinds : operation.Finds way found) : Selects target way found := by
  cases operation with
  | localGet engine key =>
      cases htarget
      exact hfinds
  | localSet engine key value =>
      cases htarget
      exact hfinds
  | storage thread command => cases htarget
  | _ => cases hcommand

/-- A call to which the manager names no thread finds no slot, and that is its whole story. -/
theorem finds_of_unserved {manager : ManagerRef} {answer : Except Failure (Option Handle)}
    {core : CoreId} {failure : Failure} {result : Except Failure operation.Reply}
    (hcommand : operation.command? = some command) (htarget : operation.engine? = some target)
    (hstory : operation.StorageStory command story result)
    (hanswer : .answered (.currentThread manager) answer ∈ story)
    (hfailure : unserved core answer = some failure) :
    ∃ cause, operation.Finds story (.error cause) ∧ result = .error cause := by
  cases hstory with
  | @served way slot storage reply hfinds hreplies =>
      have hway : .answered (.currentThread manager) answer ∈ way := by
        cases slot <;>
          simpa [StorageSlot.visit, StorageSlot.reads, StorageSlot.writes] using hanswer
      obtain ⟨thread, rfl, _⟩ | ⟨_, _, _, hfound, _⟩ :=
        (selects_of_finds hcommand htarget hfinds).of_answer hway
      · cases hfailure
      · cases hfound
  | refused hfinds => exact ⟨_, hfinds, rfl⟩

/-- The core that such a call names is that of its engine. -/
theorem unserved_core {engine : Engine} {answer : Except Failure (Option Handle)} {core : CoreId}
    (hrun : Runs {} history world flows) (hengine : world.engineAt? target = some engine)
    (hshape : answer = .ok none → ∃ shape : EngineShape, shape.core = core ∧
      .acted (.engine target .shape) shape ∈ history.map Prod.snd) :
    unserved core answer = unserved engine.shape.core answer := by
  rcases answer with cause | _ | handle
  · rfl
  · obtain ⟨shape, rfl, hread⟩ := hshape rfl
    have htold : world.engineShape? target = some shape := hrun.bears _ hread
    have hmine : world.engineShape? target = some engine.shape := congrArg (Option.map _) hengine
    rw [Option.some.inj (htold.symm.trans hmine)]
  · cases handle <;> rfl

/-- A call to which the manager names no thread fails, and uses no storage. -/
theorem refused_of_runs {engine : Engine} {manager : ManagerRef}
    {answer : Except Failure (Option Handle)} {failure : Failure}
    (hrun : Runs {} history world flows) (hengine : world.engineAt? target = some engine)
    (hcommand : operation.command? = some command) (htarget : operation.engine? = some target)
    (hown : (Journal.ofHistory history).own number = .started operation :: story)
    (hanswer : .answered (.currentThread manager) answer ∈ story)
    (hfailure : unserved engine.shape.core answer = some failure) :
    (∀ happening ∈ story, happening.Storeless) ∧
      ∀ result, .finished operation result ∈ story → result = .error failure := by
  constructor
  · obtain ⟨whole, result, hwhole, hlonger⟩ := hrun.storageStory hcommand hown
    have hin : .answered (.currentThread manager) answer ∈ whole := by
      simpa using hlonger.mem hanswer
    obtain ⟨cause, hway, _⟩ := finds_of_unserved hcommand htarget hwhole hin hfailure
    intro happening hmem
    rcases List.mem_append.mp (hlonger.mem hmem) with hmem | hlast
    · exact (hway.bare hmem).2.1
    · exact List.mem_singleton.mp hlast ▸ trivial
  · intro result hfinished
    obtain ⟨whole, hwhole, rfl⟩ := hrun.storageStory_of_finished hcommand hown hfinished
    have hin : .answered (.currentThread manager) answer ∈ whole := by simpa using hanswer
    obtain ⟨cause, hway, rfl⟩ := finds_of_unserved hcommand htarget hwhole hin hfailure
    obtain ⟨thread, _, hfound⟩ | ⟨core, cause', hunserved, hfound, hshape⟩ :=
      (selects_of_finds hcommand htarget hway).of_answer hin
    · cases hfound
    · cases hfound
      rw [unserved_core hrun hengine fun hnone => (hshape hnone).imp fun shape hread =>
        ⟨hread.1, hrun.mem_history hown (List.mem_append_left _ hread.2)⟩] at hunserved
      exact congrArg Except.error (Option.some.inj (hunserved.symm.trans hfailure))

/-- What a slot holds under a key changes only at the hands of a call that is there to change it and
has found this slot. -/
theorem confined_of_runs {index : Nat} {happening : Happening} {flow : Flow} {key : UInt64}
    (hrun : Runs {} history world flows)
    (hmoves : (flows index).Moves world happening later flow)
    (hchanged : (later.storageIn slot).get? key ≠ (world.storageIn slot).get? key) :
    ∃ operation command rest below number way story,
      flows index = ⟨operation, rest⟩ :: below ∧ operation.command? = some command ∧
        command.key = key ∧ (∀ other, command ≠ .get other) ∧
          (Journal.ofHistory history).own number = .started operation :: story ∧
            operation.Finds way (.ok slot) ∧ way <+: story := by
  have hafter := World.storageIn_after hmoves.after
  obtain ⟨stored, rfl⟩ : ∃ stored, happening = slot.writes stored := by
    cases hwrite : happening.write? with
    | none => simp [hafter, hwrite] at hchanged
    | some deed =>
        obtain ⟨other, stored⟩ := deed
        by_cases hother : slot = other
        · subst hother
          exact ⟨stored, Happening.write?_eq_some.mp hwrite⟩
        · simp [hafter, hwrite, hother] at hchanged
  have hnext : Runs {} (history ++ [(index, slot.writes stored)]) later
      (Function.update flows index flow) := .move hrun hmoves
  obtain ⟨operation, rest, below, hflow⟩ : ∃ operation rest below,
      flows index = ⟨operation, rest⟩ :: below := by
    generalize flows index = old at hmoves
    cases slot <;> cases hmoves with
    | step below hgoes _ => exact ⟨_, _, below, rfl⟩
  obtain rfl | ⟨number, story, hown, hown'⟩ := hrun.step_of_moves hflow hmoves
  · exact absurd rfl hchanged
  · obtain ⟨other, command, way, held, hcommand, hfinds, rfl, hmade⟩ :=
      hnext.visit_of_writes (show _ = (.started operation :: story) ++ [_] from hown')
    obtain ⟨hsame, rfl⟩ := List.cons.inj hmade
    cases hsame
    have hheld := hrun.storageIn_of_reads (hown.trans hmade)
    have hleaves : (later.storageIn slot).get? key =
        command.leaves key ((world.storageIn slot).get? key) := by
      rw [hafter, Happening.write?_eq_some.mpr rfl, hheld, ← LocalStorage.get?_run]
      exact congrArg (fun storage : LocalStorage => storage.get? key) (Function.update_self ..)
    rw [hleaves] at hchanged
    refine ⟨operation, command, rest, below, number, way, _, hflow, hcommand, ?_, ?_, hown, hfinds,
      ?_⟩
    · by_contra hkey
      exact hchanged (LocalStorage.leaves_of_ne hkey _)
    · rintro other rfl
      exact hchanged rfl
    · exact (List.prefix_append way _).trans (List.prefix_append _ _)

end Engine

end

end CoreEngines
