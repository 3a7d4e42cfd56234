import CoreEngines.Proofs.Storage.Visits

/-!
Accesses to slots.  An operation accesses one slot at most, and once.  The accesses to a slot come
one after the other, each as a whole, so a slot always holds what the accesses to it so far make of
an empty table, and each of them finds what those before it have left.
-/

namespace CoreEngines

open LocalStorage (Command recalled)

namespace Journal

/-- The access to a local storage that the operation of this number is there for. -/
def command? (journal : Journal) (number : Nat) : Option Command :=
  match journal.own number with
  | .started operation :: _ => operation.command?
  | _ => none

/-- The accesses to a slot in the order in which they were made, each with the number of its
operation.  An access is made when the slot is written. -/
def accesses (journal : Journal) (slot : StorageSlot) : List (Nat × Command) :=
  (journal.deeds Happening.write?).filterMap fun (number, place, _) =>
    if place = slot then (journal.command? number).map fun command => (number, command) else none

section
variable {journal journal' : Journal} {number other : Nat} {happening : Happening}
  {operation : Operation} {story : List Happening} {command : Command} {slot : StorageSlot}

theorem command?_of_own (hown : journal.own number = .started operation :: story) :
    journal.command? number = operation.command? := by
  rw [command?, hown]

theorem command?_eq (journal : Journal) (number : Nat) :
    journal.command? number = (journal.doing? number).bind Operation.command? := by
  rw [command?, doing?]
  cases journal.own number with
  | nil => rfl
  | cons first story => cases first <;> rfl

theorem Gains.command? (hgains : journal.Gains journal' number happening)
    (hother : journal.own other ≠ []) : journal'.command? other = journal.command? other := by
  rw [command?_eq, command?_eq, hgains.doing? hother]

theorem mem_accesses : (number, command) ∈ journal.accesses slot ↔
    (∃ storage, slot.writes storage ∈ journal.own number) ∧
      journal.command? number = some command := by
  rw [accesses, List.mem_filterMap]
  constructor
  · rintro ⟨⟨other, place, storage⟩, hdeed, hsome⟩
    obtain ⟨happening, hown, hwrite⟩ := mem_deeds.mp hdeed
    obtain rfl := Happening.write?_eq_some.mp hwrite
    obtain ⟨rfl, hcommand⟩ := Option.ite_none_right_eq_some.mp hsome
    obtain ⟨_, hcommand, heq⟩ := Option.map_eq_some_iff.mp hcommand
    cases heq
    exact ⟨⟨storage, hown⟩, hcommand⟩
  · rintro ⟨⟨storage, hown⟩, hcommand⟩
    refine ⟨(number, slot, storage), mem_deeds.mpr ⟨_, hown, Happening.write?_eq_some.mpr rfl⟩, ?_⟩
    simp [hcommand]

/-- The accesses that a journal tells of stay as they are when it grows. -/
theorem Gains.accesses (hgains : journal.Gains journal' number happening) (slot : StorageSlot) :
    journal'.accesses slot = journal.accesses slot ++
      (happening.write?.bind fun (place, _) => if place = slot then
        (journal'.command? number).map fun command => (number, command) else none).toList := by
  have hsame : ∀ deed ∈ journal.deeds Happening.write?,
      journal'.command? deed.1 = journal.command? deed.1 := by
    rintro ⟨other, deed⟩ hdeed
    obtain ⟨happening, hown, _⟩ := mem_deeds.mp hdeed
    exact hgains.command? (List.ne_nil_of_mem hown)
  have hold : (journal.deeds Happening.write?).filterMap (fun (other, place, _) =>
      if place = slot then (journal'.command? other).map fun command => (other, command)
      else none) = journal.accesses slot := by
    apply List.filterMap_congr
    rintro ⟨other, deed⟩ hdeed
    simp only [hsame _ hdeed]
  rw [Journal.accesses, hgains.deeds, List.filterMap_append, hold]
  congr 1
  cases happening.write? with
  | none => rfl
  | some deed =>
      simp only [Option.map_some, Option.toList_some, Option.bind_some, List.filterMap_cons,
        List.filterMap_nil]
      split <;> simp [*]

end

end Journal

theorem Operation.StorageStory.writes_le {operation : Operation} {command : Command}
    {whole : List Happening} {result : Except Failure operation.Reply}
    (hwhole : operation.StorageStory command whole result) :
    (whole.filterMap Happening.write?).length ≤ 1 := by
  have hnone : ∀ {way found}, operation.Finds way found →
      way.filterMap Happening.write? = [] := by
    intro way found hfinds
    rw [List.filterMap_eq_nil_iff]
    intro happening hmem
    rw [Option.eq_none_iff_forall_ne_some]
    rintro ⟨slot, storage⟩ hwrite
    obtain rfl := Happening.write?_eq_some.mp hwrite
    exact StorageSlot.writes_storing.2 (hfinds.bare hmem).2.1
  cases hwhole with
  | @served way slot storage reply hfinds hreplies =>
      rw [List.filterMap_append, hnone hfinds]
      cases slot <;> exact Nat.le_refl 1
  | refused hfinds =>
      rw [hnone hfinds]
      exact Nat.zero_le 1

namespace Runs

variable {history : History} {world : World} {flows : Nat → Flow} {number : Nat}
  {slot : StorageSlot} {storage : LocalStorage} {made : List Happening} {command : Command}

/-- No operation writes more than once. -/
theorem writes_nodup (hrun : Runs {} history world flows) :
    (((Journal.ofHistory history).deeds Happening.write?).map Prod.fst).Nodup := by
  rw [List.nodup_iff_count_le_one]
  intro number
  rw [Journal.count_deeds]
  by_cases hnone : ((Journal.ofHistory history).own number).filterMap Happening.write? = []
  · rw [hnone]
    exact Nat.zero_le 1
  · obtain ⟨⟨slot, storage⟩, hdeed⟩ := List.exists_mem_of_ne_nil _ hnone
    obtain ⟨happening, hmem, hwrite⟩ := List.mem_filterMap.mp hdeed
    obtain rfl := Happening.write?_eq_some.mp hwrite
    obtain ⟨operation, command, way, _, held, reply, _, hfinds, hreplies, hstory, _⟩ :=
      hrun.visit_of_storing hmem StorageSlot.writes_storing
    refine Nat.le_trans (hstory.sublist.filterMap _).length_le ?_
    have hlast : [Happening.finished operation (.ok reply)].filterMap Happening.write? = [] := rfl
    rw [List.filterMap_cons_none rfl, List.filterMap_append, hlast, List.append_nil]
    exact (Operation.StorageStory.served hfinds hreplies).writes_le

theorem reader_alone {other : Nat} {made' : List Happening} {storage' : LocalStorage}
    (hrun : Runs {} history world flows)
    (hown : (Journal.ofHistory history).own number = made ++ [slot.reads storage])
    (hown' : (Journal.ofHistory history).own other = made' ++ [slot.reads storage']) :
    number = other := by
  obtain ⟨haccount, hkept⟩ := hrun.account keeping_obeyed kept_upholds
  exact hkept.held.alone ((Locks.mem_locksIn haccount).mp (hrun.locked_of_reads hown))
    ((Locks.mem_locksIn haccount).mp (hrun.locked_of_reads hown'))

/-- What a slot held when it was read, it holds until the one who has read it writes it. -/
theorem storageIn_of_reads (hrun : Runs {} history world flows)
    (hown : (Journal.ofHistory history).own number = made ++ [slot.reads storage]) :
    world.storageIn slot = storage := by
  suffices hall : ∀ made, (Journal.ofHistory history).own number = made ++ [slot.reads storage] →
      world.storageIn slot = storage from hall made hown
  refine hrun.grows (fun history world => ∀ made,
    (Journal.ofHistory history).own number = made ++ [slot.reads storage] →
      world.storageIn slot = storage) ?_ ?_
  · intro made hown
    simp [Journal.ofHistory, Journal.own, Journal.blank] at hown
  · intro history world flows later flows' happening index doer hrun hlater hafter hgains hholds
      made hown
    by_cases hdoer : number = doer
    · subst hdoer
      obtain ⟨_, hlast⟩ := List.append_inj' (hgains.own_self.symm.trans hown) rfl
      obtain rfl := List.singleton_inj.mp hlast
      have hsame : (slot.reads storage).write? = none := by cases slot <;> rfl
      rw [World.storageIn_after hafter, hsame]
      exact World.storageIn_of_reads hafter
    · rw [hgains.own_of_ne hdoer] at hown
      rw [World.storageIn_after hafter, ← hholds made hown]
      cases hwrite : happening.write? with
      | none => rfl
      | some deed =>
          obtain ⟨other, stored⟩ := deed
          obtain rfl := Happening.write?_eq_some.mp hwrite
          -- two operations that have read the same slot would both have its lock
          have hother : slot ≠ other := by
            rintro rfl
            obtain ⟨_, _, _, held, _, _, _, hread⟩ :=
              hlater.visit_of_writes hgains.own_self
            exact hdoer (hrun.reader_alone hown hread)
          exact Function.update_of_ne hother stored world.storageIn

section
variable {before : History} {later : World} {flows' : Nat → Flow} {index : Nat}

/-- Whoever writes a slot stores what its access makes of what the slot holds. -/
theorem access_of_writes (hrun : Runs {} history world flows)
    (hnext : Runs {} (history ++ [(index, slot.writes storage)]) later flows')
    (hgains : (Journal.ofHistory history).Gains
      (Journal.ofHistory (history ++ [(index, slot.writes storage)])) number
        (slot.writes storage)) :
    ∃ command, (Journal.ofHistory (history ++ [(index, slot.writes storage)])).accesses slot =
        (Journal.ofHistory history).accesses slot ++ [(number, command)] ∧
      storage = ((world.storageIn slot).run command).2 ∧
        slot.reads (world.storageIn slot) ∈ (Journal.ofHistory history).own number := by
  obtain ⟨operation, command, way, held, hcommand, _, rfl, hread⟩ :=
    hnext.visit_of_writes hgains.own_self
  have hheld := hrun.storageIn_of_reads hread
  have htold : (Journal.ofHistory (history ++ [(index, slot.writes (held.run command).2)])).command?
      number = some command := by
    rw [hgains.command? (by simp [hread]), Journal.command?_of_own hread, hcommand]
  refine ⟨command, ?_, by rw [hheld], by rw [hread, hheld]; simp⟩
  rw [hgains.accesses, Happening.write?_eq_some.mpr rfl, Option.bind_some]
  simp [htold]

/-- Nobody else's step is an access to the slot. -/
theorem accesses_of_not_writes {happening : Happening}
    (hgains : (Journal.ofHistory history).Gains
      (Journal.ofHistory (history ++ [(index, happening)])) number happening)
    (hwrites : ∀ storage, happening ≠ slot.writes storage) :
    (Journal.ofHistory (history ++ [(index, happening)])).accesses slot =
      (Journal.ofHistory history).accesses slot := by
  rw [hgains.accesses]
  cases hwrite : happening.write? with
  | none => simp
  | some deed =>
      obtain ⟨other, stored⟩ := deed
      have hother : other ≠ slot := by
        rintro rfl
        exact hwrites stored (Happening.write?_eq_some.mp hwrite)
      simp [hother]

end

/-- A slot holds what the accesses to it make of an empty table. -/
theorem recalls (hrun : Runs {} history world flows) (slot : StorageSlot) (key : UInt64) :
    (world.storageIn slot).get? key =
      recalled key (((Journal.ofHistory history).accesses slot).map Prod.snd) := by
  refine hrun.grows (fun history world => (world.storageIn slot).get? key =
    recalled key (((Journal.ofHistory history).accesses slot).map Prod.snd)) ?_ ?_
  · cases slot <;> rfl
  · intro history world flows later flows' happening index doer hrun hlater hafter hgains hholds
    by_cases hwrites : ∃ storage, happening = slot.writes storage
    · obtain ⟨storage, rfl⟩ := hwrites
      obtain ⟨command, haccesses, rfl, _⟩ := hrun.access_of_writes hlater hgains
      rw [World.storageIn_after hafter, Happening.write?_eq_some.mpr rfl, haccesses]
      simp [LocalStorage.recalled_concat, LocalStorage.get?_run, hholds]
    · push Not at hwrites
      rw [accesses_of_not_writes hgains hwrites, ← hholds, World.storageIn_after hafter]
      cases hwrite : happening.write? with
      | none => rfl
      | some deed =>
          obtain ⟨other, stored⟩ := deed
          have hother : slot ≠ other := by
            rintro rfl
            exact hwrites stored (Happening.write?_eq_some.mp hwrite)
          exact congrArg (fun storage => storage.get? key)
            (Function.update_of_ne hother stored world.storageIn)

/-- Every access finds what the accesses before it have left. -/
theorem found_of_access {earlier later : List (Nat × Command)} (hrun : Runs {} history world flows)
    (haccess : (Journal.ofHistory history).accesses slot = earlier ++ (number, command) :: later) :
    ∃ storage, slot.reads storage ∈ (Journal.ofHistory history).own number ∧
      ∀ key, storage.get? key = recalled key (earlier.map Prod.snd) := by
  suffices hall : ∀ later,
      (Journal.ofHistory history).accesses slot = earlier ++ (number, command) :: later →
        ∃ storage, slot.reads storage ∈ (Journal.ofHistory history).own number ∧
          ∀ key, storage.get? key = recalled key (earlier.map Prod.snd) from hall later haccess
  refine hrun.grows (fun history _ => ∀ later,
    (Journal.ofHistory history).accesses slot = earlier ++ (number, command) :: later →
      ∃ storage, slot.reads storage ∈ (Journal.ofHistory history).own number ∧
        ∀ key, storage.get? key = recalled key (earlier.map Prod.snd)) ?_ ?_
  · intro later haccess
    simp [Journal.accesses, Journal.deeds, Journal.ofHistory, Journal.blank] at haccess
  · intro history world flows world' flows' happening index doer hrun hlater hafter hgains hholds
      later haccess
    have hearlier : ∀ {later},
        (Journal.ofHistory history).accesses slot = earlier ++ (number, command) :: later →
          ∃ storage, slot.reads storage ∈
              (Journal.ofHistory (history ++ [(index, happening)])).own number ∧
            ∀ key, storage.get? key = recalled key (earlier.map Prod.snd) := by
      intro later haccess
      obtain ⟨storage, hreads, hfound⟩ := hholds later haccess
      exact ⟨storage, (Journal.own_continues history _ number).mem hreads, hfound⟩
    by_cases hwrites : ∃ storage, happening = slot.writes storage
    · obtain ⟨storage, rfl⟩ := hwrites
      obtain ⟨last, haccesses, _, hread⟩ := hrun.access_of_writes hlater hgains
      rw [haccesses] at haccess
      rcases List.eq_nil_or_concat later with rfl | ⟨later, other, rfl⟩
      · obtain ⟨rfl, hlast⟩ := List.append_inj' haccess rfl
        cases hlast
        exact ⟨_, (Journal.own_continues history _ _).mem hread, fun key => hrun.recalls slot key⟩
      · rw [List.concat_eq_append, ← List.cons_append, ← List.append_assoc] at haccess
        exact hearlier (List.append_inj' haccess rfl).1
    · push Not at hwrites
      rw [accesses_of_not_writes hgains hwrites] at haccess
      exact hearlier haccess

end Runs

end CoreEngines
