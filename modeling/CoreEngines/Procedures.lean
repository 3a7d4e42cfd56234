import CoreEngines.Engine.Entry

/-!
What the procedures do.  Each is one round that ends or calls a procedure again.
-/

namespace CoreEngines

/-- One round of a procedure. -/
def Procedure.code : (procedure : Procedure) → Program procedure.Answer
  | claimSerial counter seen => SerialCounter.claimStep counter seen
  | runLoop context => Context.loopStep context
  | idle => Engine.idleStep

end CoreEngines
