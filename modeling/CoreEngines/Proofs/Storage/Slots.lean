import CoreEngines.Engine.LocalAccess
import CoreEngines.Proofs.Admission.Ledger
import Mathlib.Data.List.Induction

/-!
Slots of local storage.  Every thread has one, and every engine has one for the time before it has
a context.  A slot changes only when it is written, and what it holds is told by the accesses that
were made to it.
-/

namespace CoreEngines

namespace LocalStorage

def Command.key : Command → UInt64
  | get key | set key _ | remove key => key

/-- What an access leaves under a key. -/
def Command.leaves (key : UInt64) (held : Option UInt64) : Command → Option UInt64
  | get _ => held
  | set other value => if other = key then some value else held
  | remove other => if other = key then none else held

/-- The value that these accesses have stored last under a key, and not erased since. -/
def LastStored (key value : UInt64) (commands : List Command) : Prop :=
  ∃ before after, commands = before ++ .set key value :: after ∧
    ∀ command ∈ after, (∀ other, command ≠ .set key other) ∧ command ≠ .remove key

/-- What is under a key after these accesses to an empty table. -/
def recalled (key : UInt64) (commands : List Command) : Option UInt64 :=
  commands.foldl (Command.leaves key) none

section
variable {key value : UInt64} {commands : List Command}

theorem recalled_concat (key : UInt64) (commands : List Command) (command : Command) :
    recalled key (commands ++ [command]) = command.leaves key (recalled key commands) := by
  simp [recalled]

theorem leaves_of_ne {command : Command} (hkey : command.key ≠ key) (held : Option UInt64) :
    command.leaves key held = held := by
  cases command with
  | get other => rfl
  | set other value => exact if_neg hkey
  | remove other => exact if_neg hkey

/-- The last of some accesses is the one that is looked for, or comes after it. -/
theorem exists_last_iff {wanted last : Command} {Passes : Command → Prop} :
    (∃ before after, commands ++ [last] = before ++ wanted :: after ∧
        ∀ command ∈ after, Passes command) ↔
      last = wanted ∨ Passes last ∧ ∃ before after, commands = before ++ wanted :: after ∧
        ∀ command ∈ after, Passes command := by
  constructor
  · rintro ⟨before, after, heq, hafter⟩
    rcases List.eq_nil_or_concat after with rfl | ⟨after, other, rfl⟩
    · exact Or.inl (List.singleton_inj.mp (List.append_inj' heq rfl).2)
    · rw [List.concat_eq_append, ← List.cons_append, ← List.append_assoc] at heq
      obtain ⟨rfl, hlast⟩ := List.append_inj' heq rfl
      obtain rfl := List.singleton_inj.mp hlast
      exact Or.inr ⟨hafter _ (by simp), before, after, rfl,
        fun command hmem => hafter command (by simp [hmem])⟩
  · rintro (rfl | ⟨hlast, before, after, rfl, hafter⟩)
    · exact ⟨commands, [], rfl, by simp⟩
    · refine ⟨before, after ++ [last], by simp, ?_⟩
      simpa [or_imp, forall_and] using ⟨hafter, hlast⟩

/-- The value under a key is the one that was stored there last, and was not erased since. -/
theorem recalled_eq_some :
    recalled key commands = some value ↔ LastStored key value commands := by
  induction commands using List.reverseRecOn with
  | nil => simp [recalled, LastStored]
  | append_singleton commands last ih =>
      rw [LastStored] at ih ⊢
      rw [recalled_concat, exists_last_iff, ← ih]
      cases last with
      | get other => simp [Command.leaves]
      | set other stored =>
          by_cases hkey : other = key
          · simp [Command.leaves, hkey]
          · simp [Command.leaves, hkey]
      | remove other =>
          by_cases hkey : other = key
          · simp [Command.leaves, hkey]
          · simp [Command.leaves, hkey]

end

/-- An access answers what was under its key, -/
theorem run_fst (storage : LocalStorage) (command : Command) :
    (storage.run command).1 = storage.get? command.key := by
  cases command <;> rfl

/-- and leaves under every key what it should. -/
theorem get?_run (storage : LocalStorage) (command : Command) (key : UInt64) :
    (storage.run command).2.get? key = command.leaves key (storage.get? key) := by
  obtain ⟨table⟩ := storage
  cases command with
  | get other => rfl
  | set other value =>
      cases table <;>
        simp [run, set, get?, Command.leaves, Std.TreeMap.getElem?_insert,
          Std.LawfulEqCmp.compare_eq_iff_eq]
  | remove other =>
      cases table <;>
        simp [run, remove, get?, Command.leaves, Std.TreeMap.getElem?_erase,
          Std.LawfulEqCmp.compare_eq_iff_eq]

end LocalStorage

namespace StorageSlot

def lock : StorageSlot → Lock
  | .bootstrap engine => .bootstrap engine
  | .thread owner => .storage owner

def reads (storage : LocalStorage) : StorageSlot → Happening
  | .bootstrap engine => .acted (.engine engine .readBootstrap) storage
  | .thread owner => .acted (.thread owner .readStorage) storage

def writes (storage : LocalStorage) : StorageSlot → Happening
  | .bootstrap engine => .acted (.engine engine (.writeBootstrap storage)) ()
  | .thread owner => .acted (.thread owner (.writeStorage storage)) ()

end StorageSlot

def Happening.write? : Happening → Option (StorageSlot × LocalStorage)
  | .acted (.engine engine (.writeBootstrap storage)) _ => some (.bootstrap engine, storage)
  | .acted (.thread thread (.writeStorage storage)) _ => some (.thread thread, storage)
  | _ => none

/-- What a slot holds; nothing, where there is no such thread or engine. -/
def World.storageIn (world : World) : StorageSlot → LocalStorage
  | .bootstrap engine => (world.engineAt? engine).elim .empty (·.bootstrap)
  | .thread thread => (world.threadAt? thread).elim .empty (·.storage)

section
variable {world later : World} {happening : Happening} {slot : StorageSlot}
  {storage : LocalStorage}

theorem Happening.write?_eq_some :
    happening.write? = some (slot, storage) ↔ happening = slot.writes storage := by
  constructor
  · intro hwrite
    unfold write? at hwrite
    split at hwrite <;> cases hwrite <;> rfl
  · rintro rfl
    cases slot <;> rfl

namespace World

theorem storageIn_setEngine {target : Ref .engine} {object : Engine}
    (hobject : world.engineAt? target = some object) (object' : Engine) :
    World.storageIn { world with engines := world.engines.setIfInBounds target.index object' } =
      Function.update world.storageIn (.bootstrap target) object'.bootstrap := by
  have hbootstrap := elim_setIfInBounds hobject object' LocalStorage.empty Engine.bootstrap
  funext slot
  cases slot with
  | bootstrap engine =>
      refine (congrFun hbootstrap engine).trans ?_
      by_cases hengine : engine = target
      · subst hengine
        simp
      · simp [hengine, storageIn, engineAt?]
  | thread thread => rfl

theorem storageIn_setThread {target : Ref .thread} {object : Thread}
    (hobject : world.threadAt? target = some object) (object' : Thread) :
    World.storageIn { world with threads := world.threads.setIfInBounds target.index object' } =
      Function.update world.storageIn (.thread target) object'.storage := by
  have hstorage := elim_setIfInBounds hobject object' LocalStorage.empty Thread.storage
  funext slot
  cases slot with
  | bootstrap engine => rfl
  | thread thread =>
      refine (congrFun hstorage thread).trans ?_
      by_cases hthread : thread = target
      · subst hthread
        simp
      · simp [hthread, storageIn, threadAt?]

/-- A slot changes only when it is written. -/
theorem storageIn_after (hafter : world.After happening later) :
    later.storageIn = match happening.write? with
      | some (slot, storage) => Function.update world.storageIn slot storage
      | none => world.storageIn := by
  cases happening with
  | acted action answer =>
      cases effect_of_perform? hafter with
      | @engine target object object' access answer hobject haccess =>
          have hsame : world.storageIn (.bootstrap target) = object.bootstrap := by
            simp [storageIn, hobject]
          rw [storageIn_setEngine hobject]
          cases access with
          | claimContext =>
              simp only [Engine.access?, Option.map_eq_some_iff] at haccess
              obtain ⟨_, _, heq⟩ := haccess
              cases heq
              exact (congrArg (Function.update _ _) hsame.symm).trans (Function.update_eq_self _ _)
          | writeBootstrap storage =>
              cases haccess
              rfl
          | _ =>
              cases haccess
              exact (congrArg (Function.update _ _) hsame.symm).trans (Function.update_eq_self _ _)
      | @thread target object access hobject =>
          have hsame : world.storageIn (.thread target) = object.storage := by
            simp [storageIn, hobject]
          rw [storageIn_setThread hobject]
          cases access with
          | writeStorage storage => rfl
          | bind sched =>
              have hkept : (object.access (.bind sched)).2.storage = object.storage := by
                cases hsched : object.sched <;> simp [Thread.access, hsched]
              rw [hkept, ← hsame]
              exact Function.update_eq_self _ _
          | _ =>
              exact (congrArg (Function.update _ _) hsame.symm).trans
                (Function.update_eq_self _ _)
      | newThread id mailbox =>
          have hstorage := elim_push .thread world.threads Thread.storage
            (show (Thread.new id mailbox).storage = .empty from rfl)
          funext slot
          cases slot with
          | bootstrap engine => rfl
          | thread thread => exact congrFun hstorage thread
      | newEngine shape =>
          have hbootstrap := elim_push .engine world.engines Engine.bootstrap
            (show (Engine.new shape).bootstrap = .empty from rfl)
          funext slot
          cases slot with
          | bootstrap engine => exact congrFun hbootstrap engine
          | thread thread => rfl
      | _ => rfl
  | _ =>
      obtain rfl : later = world := hafter
      rfl

/-- Whoever reads a slot finds what it holds. -/
theorem storageIn_of_reads (hafter : world.After (slot.reads storage) later) :
    world.storageIn slot = storage := by
  cases slot with
  | bootstrap engine =>
      cases effect_of_perform? hafter with
      | engine hobject haccess =>
          cases haccess
          simp [storageIn, hobject]
  | thread thread =>
      have hperform : world.perform? (.thread thread .readStorage) = some (storage, later) := hafter
      simp only [perform?, accessAt?_eq, Option.map_map, Option.map_eq_some_iff] at hperform
      obtain ⟨object, hobject, heq⟩ := hperform
      cases heq
      simp [storageIn, threadAt?, hobject, Thread.access]

end World

end

end CoreEngines
