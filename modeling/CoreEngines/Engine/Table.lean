import CoreEngines.Registry.Creation

/-!
Engine tables: one engine for every core, at the place that is the core's number.
-/

namespace CoreEngines

open Program

/-- The engines of a system in core order. -/
structure Table where
  engines : Array (Ref .engine)
deriving DecidableEq, Repr

namespace Table

def get? (table : Table) (core : CoreId) : Option (Ref .engine) :=
  table.engines[core.index]?

/-- The engine that owns a thread: the one of the thread's core, if the table has it. -/
def owner? (table : Table) (world : World) (thread : Ref .thread) : Option (Ref .engine) :=
  (world.threadAt? thread).bind fun thread => table.get? thread.id.core

/-- Make the engine of one core, with a registry of its own. -/
def makeEngine (config : Config) (core : CoreId) (mode : Mode) : Program (Ref .engine) := do
  let registry ← Registry.make core config.mailboxReserve
  perform (.newEngine { core, mode, config, registry })

/-- Make the engines of the cores from `first` on. -/
def makeEngines (config : Config) (first : UInt32) : List Mode → Program (List (Ref .engine))
  | [] => return []
  | mode :: modes => do
      let engine ← makeEngine config ⟨first⟩ mode
      let engines ← makeEngines config (first + 1) modes
      return engine :: engines

/-- Build a table with an engine for each mode; there must be at least one. -/
def build (config : Config) (modes : List Mode) : Program Table :=
  match modes with
  | [] => raise .emptyTable
  | modes => do
      let engines ← makeEngines config 0 modes
      report (.tableBuilt engines.length)
      return ⟨engines.toArray⟩

/-- The engine of the core that runs the caller. -/
def current (table : Table) : Program (Ref .engine) := do
  let core : CoreId ← request .currentCore
  match table.get? core with
  | some engine => return engine
  | none => raise (.noEngine core)

end Table

end CoreEngines
