import CoreEngines.Context.RunLoop

/-!
Entry of an engine.  Its own core enters an engine, once; what happens then is up to its mode.
-/

namespace CoreEngines.Engine

open Program

/-- Build the context of an engine unless it is there.  A build that fails leaves it to the
next. -/
def makeContext (engine : Ref .engine) (core : CoreId) (shape : EngineShape) :
    Program (Ref .context) := do
  let claim : OnceCell.Claim (Ref .context) ← perform (.engine engine .claimContext)
  match claim with
  | .ready context => return context
  | .granted =>
      let startup := decide (core = shape.config.bootstrapCore)
      (Context.make core startup shape.config.admission shape.registry).andThen fun
        | .ok context => do
            perform (.engine engine (.fillContext context))
            return context
        | .error failure => do
            perform (.engine engine .abandonContext)
            fail failure

/-- Wait for interrupts, for ever. -/
def idleStep : Program Unit := do
  request .pause
  invoke .idle

/-- What an engine does once the entry checks have passed. -/
def operate (engine : Ref .engine) (core : CoreId) (shape : EngineShape) : Program Unit :=
  match shape.mode with
  | .disabled => do
      let never : Empty ← request .halt
      nomatch never
  | .service => invoke .idle
  | .execution => do
      let context ← makeContext engine core shape
      Context.run context

/-- Run the engine on the current core.  The entry flag goes up before the other checks, so a
failed entry is an entry too. -/
def enter (engine : Ref .engine) : Program Unit := do
  let shape : EngineShape ← perform (.engine engine .shape)
  let entered : Bool ← perform (.engine engine .enter)
  if entered then
    raise (.enteredTwice shape.core)
  else
    let context : Option (Ref .context) ← perform (.engine engine .context)
    match context with
    | some _ => raise (.contextExists shape.core)
    | none =>
        let core : CoreId ← request .currentCore
        if core = shape.core then
          report (.engineEntered core shape.mode)
          operate engine core shape
        else
          raise (.enteredElsewhere shape.core core)

/-- Forward a timer interrupt to the context, if there is one. -/
def timerTick (engine : Ref .engine) : Program Unit := do
  let context : Option (Ref .context) ← perform (.engine engine .context)
  match context with
  | some context => Context.tick context
  | none => return ()

/-- The context that an engine must have. -/
def requireContext (engine : Ref .engine) : Program (Ref .context) := do
  let found : Option (Ref .context) ← perform (.engine engine .context)
  match found with
  | some context => return context
  | none =>
      let shape : EngineShape ← perform (.engine engine .shape)
      raise (.noContext shape.core)

end CoreEngines.Engine
