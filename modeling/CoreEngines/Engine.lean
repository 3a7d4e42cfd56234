import CoreEngines.Config
import CoreEngines.LocalStorage
import CoreEngines.OnceCell
import CoreEngines.Reference

/-!
Engines: the controller of one core.
-/

namespace CoreEngines

/-- The parts of an engine that never change. -/
structure EngineShape where
  core : CoreId
  mode : Mode
  config : Config
  registry : Ref .registry
deriving DecidableEq

/-- An engine, with the flag that its first entry raises, the context that an execution engine
gets on entry, and the local storage in use until then. -/
structure Engine where
  shape : EngineShape
  entered : Bool
  context : OnceCell (Ref .context)
  bootstrap : LocalStorage

namespace Engine

def new (shape : EngineShape) : Engine :=
  ⟨shape, false, .vacant, .empty⟩

/-- What one access to an engine can do.  The bootstrap storage belongs under its lock. -/
inductive Access
  | shape
  /-- Raise the entry flag, and answer whether it was up already. -/
  | enter
  | context
  | claimContext
  | fillContext (context : Ref .context)
  | abandonContext
  | readBootstrap
  | writeBootstrap (storage : LocalStorage)

abbrev Access.Answer : Access → Type
  | .shape => EngineShape
  | .enter => Bool
  | .context => Option (Ref .context)
  | .claimContext => OnceCell.Claim (Ref .context)
  | .fillContext _ | .abandonContext | .writeBootstrap _ => Unit
  | .readBootstrap => LocalStorage

/-- No answer while another is building the context that this access claims. -/
def access? (engine : Engine) : (access : Access) → Option (access.Answer × Engine)
  | .shape => some (engine.shape, engine)
  | .enter => some (engine.entered, { engine with entered := true })
  | .context => some (engine.context.value?, engine)
  | .claimContext =>
      engine.context.claim?.map fun (claim, context) => (claim, { engine with context })
  | .fillContext context => some ((), { engine with context := engine.context.fill context })
  | .abandonContext => some ((), { engine with context := engine.context.abandon })
  | .readBootstrap => some (engine.bootstrap, engine)
  | .writeBootstrap storage => some ((), { engine with bootstrap := storage })

end Engine

end CoreEngines
