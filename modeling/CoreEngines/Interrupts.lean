import CoreEngines.Program

/-!
Interrupt scopes.  A scope masks interrupts on its core when it opens and puts back what it found
when it closes, so scopes nest.
-/

namespace CoreEngines

/-- An open scope, which remembers whether interrupts were enabled before it. -/
structure MaskScope where
  previous : Bool
deriving DecidableEq, Repr

namespace MaskScope

def opened : Program MaskScope := do
  let previous : Bool ← .request .mask
  return ⟨previous⟩

def close (scope : MaskScope) : Program Unit :=
  .request (.restore scope.previous)

def inspect (scope : MaskScope) : String :=
  Text.record "NoInterrupts" [⟨"previous", Text.truth scope.previous⟩]

end MaskScope

/-- What the code of an interrupt handler shows to prove that it runs in one. -/
structure HandlerToken where

def HandlerToken.inspect (_ : HandlerToken) : String :=
  "IrqContext(..)"

end CoreEngines
