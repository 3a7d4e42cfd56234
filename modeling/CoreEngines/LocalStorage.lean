import CoreEngines.Text.Record
import Std.Data.TreeMap

/-!
Local storage: a table from keys that the host hands out to machine words.  The table is made by
the first entry, so a thread that stores nothing has none.
-/

namespace CoreEngines

/-- Entries by key; no table at all until the first entry. -/
structure LocalStorage where
  table : Option (Std.TreeMap UInt64 UInt64)

namespace LocalStorage

def empty : LocalStorage := ⟨none⟩

instance : Inhabited LocalStorage := ⟨empty⟩

def get? (storage : LocalStorage) (key : UInt64) : Option UInt64 :=
  storage.table.bind (·[key]?)

def set (storage : LocalStorage) (key value : UInt64) : Option UInt64 × LocalStorage :=
  (storage.get? key, ⟨some ((storage.table.getD ∅).insert key value)⟩)

def remove (storage : LocalStorage) (key : UInt64) : Option UInt64 × LocalStorage :=
  (storage.get? key, ⟨storage.table.map (·.erase key)⟩)

/-- The accesses to single keys. -/
inductive Command
  | get (key : UInt64)
  | set (key value : UInt64)
  | remove (key : UInt64)
deriving DecidableEq, Repr

/-- Do one access; each answers the value that the key had before. -/
def run (storage : LocalStorage) : Command → Option UInt64 × LocalStorage
  | .get key => (storage.get? key, storage)
  | .set key value => storage.set key value
  | .remove key => storage.remove key

def size (storage : LocalStorage) : Nat :=
  storage.table.elim 0 (·.size)

def isEmpty (storage : LocalStorage) : Bool :=
  storage.size == 0

/-- All entries by ascending key. -/
def entries (storage : LocalStorage) : List (UInt64 × UInt64) :=
  storage.table.elim [] (·.toList)

def inspect (storage : LocalStorage) : String :=
  "LocalStorage " ++ Text.table (storage.entries.map fun entry =>
    (toString entry.1.toNat, toString entry.2.toNat))

end LocalStorage

end CoreEngines
