import CoreEngines.Proofs.Storage.Slots
import CoreEngines.Proofs.Text.Numerals
import Mathlib.Data.Set.Card

/-!
Contents of local storage.  All that can be learnt of a storage is which keys have a value, and
which: its size, its printed forms and all later answers depend on nothing else.  So nobody can tell
a storage that was never used from one that everything was removed from, though only the second has
a table.  In which order a table lists its entries is left open: the order of `entries` is one of
many, and nothing here is true of that one only.
-/

namespace CoreEngines.LocalStorage

/-- All that can be asked of a storage. -/
inductive Query
  /-- Access a single key. -/
  | access (command : Command)
  | size
  | isEmpty
  | inspect
deriving DecidableEq

/-- What a storage can answer. -/
inductive Answer
  | value (held : Option UInt64)
  | size (keys : Nat)
  | isEmpty (empty : Bool)
  | text (printed : String)
deriving DecidableEq

/-- The text that lists these entries, in this order. -/
def listing (entries : List (UInt64 × UInt64)) : String :=
  "LocalStorage " ++ Text.table (entries.map fun entry =>
    (toString entry.1.toNat, toString entry.2.toNat))

/-- The forms in which a storage can be printed: each key that has a value is listed once with it,
and nothing else is. -/
def PrintedAs (storage : LocalStorage) (text : String) : Prop :=
  ∃ entries, text = listing entries ∧ (entries.map Prod.fst).Nodup ∧
    ∀ key value, (key, value) ∈ entries ↔ storage.get? key = some value

/-- What a storage can answer to a query. -/
def Tells (storage : LocalStorage) : Query → Answer → Prop
  | .access command, answer => answer = .value (storage.run command).1
  | .size, answer => answer = .size storage.size
  | .isEmpty, answer => answer = .isEmpty storage.isEmpty
  | .inspect, answer => ∃ text, storage.PrintedAs text ∧ answer = .text text

/-- What a storage becomes by a query; only an access to a key can change it. -/
def asked (storage : LocalStorage) : Query → LocalStorage
  | .access command => (storage.run command).2
  | _ => storage

/-- What a storage has become after it was asked these, one after the other, -/
def after (storage : LocalStorage) (queries : List Query) : LocalStorage :=
  queries.foldl asked storage

/-- and whether it can have answered so. -/
def TellsAll (storage : LocalStorage) : List (Query × Answer) → Prop
  | [] => True
  | (query, answer) :: later => storage.Tells query answer ∧ (storage.asked query).TellsAll later

def Query.command? : Query → Option Command
  | access command => some command
  | _ => none

def keys (storage : LocalStorage) : Set UInt64 :=
  {key | (storage.get? key).isSome}

/-- Storages with the same value under every key. -/
def Alike (storage other : LocalStorage) : Prop :=
  ∀ key, storage.get? key = other.get? key

section
variable {storage other : LocalStorage}

theorem mem_entries {key value : UInt64} :
    (key, value) ∈ storage.entries ↔ storage.get? key = some value := by
  obtain ⟨table⟩ := storage
  cases table with
  | none => simp [entries, get?]
  | some table => exact Std.TreeMap.mem_toList_iff_getElem?_eq_some

theorem entries_nodup (storage : LocalStorage) : (storage.entries.map Prod.fst).Nodup := by
  obtain ⟨table⟩ := storage
  cases table with
  | none => exact List.nodup_nil
  | some table =>
      rw [List.Nodup, List.pairwise_map]
      refine Std.TreeMap.distinct_keys_toList.imp ?_
      intro first second hdistinct hsame
      exact hdistinct (Std.LawfulEqCmp.compare_eq_iff_eq.mpr hsame)

theorem length_entries (storage : LocalStorage) : storage.entries.length = storage.size := by
  obtain ⟨table⟩ := storage
  cases table with
  | none => rfl
  | some table => exact Std.TreeMap.length_toList

theorem keys_eq (storage : LocalStorage) :
    storage.keys = ↑(storage.entries.map Prod.fst).toFinset := by
  ext key
  simp [keys, Option.isSome_iff_exists, mem_entries]

/-- A storage counts each key that has a value once. -/
theorem size_eq_ncard (storage : LocalStorage) : storage.size = storage.keys.ncard := by
  rw [keys_eq, Set.ncard_coe_finset, List.toFinset_card_of_nodup storage.entries_nodup,
    List.length_map, length_entries]

theorem printedAs_inspect (storage : LocalStorage) : storage.PrintedAs storage.inspect :=
  ⟨storage.entries, rfl, storage.entries_nodup, fun _ _ => mem_entries⟩

theorem listing_inj {entries entries' : List (UInt64 × UInt64)} :
    listing entries = listing entries' ↔ entries = entries' := by
  have htable : ∀ entries : List (UInt64 × UInt64), listing entries = "LocalStorage " ++
      Text.numeralTable (entries.map fun entry => (entry.1.toNat, entry.2.toNat)) := by
    intro entries
    simp [listing, Text.numeralTable, Function.comp_def]
  rw [htable, htable, String.append_right_inj, Text.numeralTable_inj]
  refine (List.map_injective_iff.mpr ?_).eq_iff
  intro entry entry' hpair
  obtain ⟨hkey, hvalue⟩ := Prod.mk.inj hpair
  exact Prod.ext (UInt64.toNat_inj.mp hkey) (UInt64.toNat_inj.mp hvalue)

theorem Alike.symm (halike : storage.Alike other) : other.Alike storage :=
  fun key => (halike key).symm

theorem Alike.size_eq (halike : storage.Alike other) : storage.size = other.size := by
  have hkeys : storage.keys = other.keys := by
    ext key
    simp [keys, halike key]
  rw [size_eq_ncard, size_eq_ncard, hkeys]

theorem Alike.printedAs (halike : storage.Alike other) {text : String}
    (hprinted : storage.PrintedAs text) : other.PrintedAs text := by
  obtain ⟨entries, htext, hnodup, hentries⟩ := hprinted
  exact ⟨entries, htext, hnodup, fun key value => by rw [hentries, halike]⟩

/-- A printed form says what is under which key. -/
theorem PrintedAs.iff_alike {text : String} (hprinted : storage.PrintedAs text) :
    other.PrintedAs text ↔ storage.Alike other := by
  refine ⟨?_, fun halike => halike.printedAs hprinted⟩
  obtain ⟨entries, rfl, _, hentries⟩ := hprinted
  rintro ⟨entries', hsame, _, hentries'⟩
  obtain rfl := listing_inj.mp hsame
  intro key
  apply Option.ext
  intro value
  rw [← hentries, hentries']

/-- Storages with the same contents can give the same answers, and stay so. -/
theorem Alike.asked (halike : storage.Alike other) (query : Query) :
    (∀ answer, storage.Tells query answer → other.Tells query answer) ∧
      (storage.asked query).Alike (other.asked query) := by
  cases query with
  | access command =>
      refine ⟨?_, fun key => ?_⟩
      · rintro answer rfl
        exact congrArg Answer.value (by rw [run_fst, run_fst, halike])
      · rw [LocalStorage.asked, LocalStorage.asked, get?_run, get?_run, halike]
  | size =>
      refine ⟨?_, halike⟩
      rintro answer rfl
      exact congrArg Answer.size halike.size_eq
  | isEmpty =>
      refine ⟨?_, halike⟩
      rintro answer rfl
      exact congrArg Answer.isEmpty (by rw [isEmpty, isEmpty, halike.size_eq])
  | inspect =>
      refine ⟨?_, halike⟩
      rintro answer ⟨text, hprinted, rfl⟩
      exact ⟨text, halike.printedAs hprinted, rfl⟩

theorem Alike.tellsAll (halike : storage.Alike other) {told : List (Query × Answer)}
    (htold : storage.TellsAll told) : other.TellsAll told := by
  induction told generalizing storage other with
  | nil => trivial
  | cons first later ih =>
      obtain ⟨query, answer⟩ := first
      obtain ⟨htells, hasked⟩ := halike.asked query
      exact ⟨htells answer htold.1, ih hasked htold.2⟩

/-- A storage without a value under any key is like one that was never used. -/
theorem alike_empty (hsize : storage.size = 0) : storage.Alike empty := by
  have hnone : storage.entries = [] := by
    rw [← List.length_eq_zero_iff, length_entries, hsize]
  refine fun key => Option.eq_none_iff_forall_ne_some.mpr fun value hvalue => ?_
  rw [← mem_entries, hnone] at hvalue
  cases hvalue

end

/-- Of what a storage was asked, the accesses decide what it holds. -/
theorem get?_after (storage : LocalStorage) (key : UInt64) (queries : List Query) :
    (storage.after queries).get? key =
      (queries.filterMap Query.command?).foldl (Command.leaves key) (storage.get? key) := by
  induction queries generalizing storage with
  | nil => rfl
  | cons query queries ih =>
      refine (ih (storage.asked query)).trans ?_
      cases query with
      | access command =>
          exact congrArg (List.foldl _ · _) (get?_run storage command key)
      | _ => rfl

/-- A storage is a finite map: what it answers is what a map would that was changed by the same
accesses. -/
structure Mirrors (storage : LocalStorage) (commands : List Command) : Prop where
  /-- Under a key is the value that was stored there last, if it was not removed since, -/
  held : ∀ key value, storage.get? key = some value ↔ LastStored key value commands
  /-- and every access to a key answers what was there just before it. -/
  replies : ∀ command, (storage.run command).1 = storage.get? command.key
  /-- Each key that has a value counts once. -/
  finite : storage.keys.Finite
  size : storage.size = storage.keys.ncard
  isEmpty : storage.isEmpty ↔ storage.size = 0
  /-- It is printed as the list of these keys with their values, each once and nothing else, -/
  printed : storage.PrintedAs storage.inspect
  /-- and storages that hold something else cannot be printed so, whatever the order. -/
  legible : ∀ {other text}, storage.PrintedAs text → (other.PrintedAs text ↔ storage.Alike other)
  /-- A storage that everything was removed from is never told from one that was never used. -/
  forgets : storage.size = 0 → ∀ told, storage.TellsAll told ↔ empty.TellsAll told

/-- Whatever a storage was asked, it is the finite map that the accesses have made. -/
theorem mirrors_after (queries : List Query) :
    (empty.after queries).Mirrors (queries.filterMap Query.command?) where
  held key value := by rw [get?_after, ← recalled_eq_some]; rfl
  replies command := run_fst _ command
  finite := by
    rw [keys_eq]
    exact Finset.finite_toSet _
  size := size_eq_ncard _
  isEmpty := by simp [LocalStorage.isEmpty]
  printed := printedAs_inspect _
  legible := PrintedAs.iff_alike
  forgets hsize _ := ⟨(alike_empty hsize).tellsAll, (alike_empty hsize).symm.tellsAll⟩

example : (empty.after [.access (.set 2 7), .access (.set 1 5), .access (.set 2 8), .size,
    .access (.remove 2), .access (.get 1)]).inspect = "LocalStorage \x7b1: 5\x7d" := by
  rfl

end CoreEngines.LocalStorage
