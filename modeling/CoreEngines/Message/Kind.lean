/-!
The kinds of message that threads understand.
-/

namespace CoreEngines

/-- What a message asks of its receiver. -/
inductive MessageKind
  | empty
  /-- New start arguments for the thread. -/
  | setArguments
  /-- Source code to evaluate. -/
  | evaluate
  /-- A timer of the receiver has fired. -/
  | timeoutEvent
  /-- An interrupt that the receiver subscribed to was raised. -/
  | irqRaise
  /-- A call of a function that the receiver exports. -/
  | functionCall
  | functionReturnResolve
  | functionReturnReject
deriving DecidableEq, Repr, Inhabited

namespace MessageKind

def isCall : MessageKind → Bool
  | functionCall => true
  | _ => false

/-- Kinds that answer an earlier call of the receiver. -/
def isReturn : MessageKind → Bool
  | functionReturnResolve | functionReturnReject => true
  | _ => false

def display : MessageKind → String
  | empty => "empty"
  | setArguments => "set-arguments"
  | evaluate => "evaluate"
  | timeoutEvent => "timeout-event"
  | irqRaise => "irq-raise"
  | functionCall => "function-call"
  | functionReturnResolve => "function-return-resolve"
  | functionReturnReject => "function-return-reject"

def inspect : MessageKind → String
  | empty => "Empty"
  | setArguments => "SetArguments"
  | evaluate => "Evaluate"
  | timeoutEvent => "TimeoutEvent"
  | irqRaise => "IrqRaise"
  | functionCall => "FunctionCall"
  | functionReturnResolve => "FunctionReturnResolve"
  | functionReturnReject => "FunctionReturnReject"

def named? (text : String) : Option MessageKind :=
  [empty, setArguments, evaluate, timeoutEvent, irqRaise, functionCall, functionReturnResolve,
    functionReturnReject].find? (·.inspect == text)

end MessageKind

end CoreEngines
