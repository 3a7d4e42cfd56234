import CoreEngines.Failure
import CoreEngines.Reference
import CoreEngines.Text.Hex

/-!
Messages between threads.  Nothing is checked when a message is made; its sender and its function
are checked when they are read.
-/

namespace CoreEngines

/-- Bytes that the sender has serialised and only the receiver decodes. -/
structure Payload where
  bytes : ByteArray

namespace Payload

instance : DecidableEq Payload := fun left right =>
  match ByteArray.instDecidableEq left.bytes right.bytes with
  | isTrue same => isTrue (congrArg mk same)
  | isFalse differ => isFalse fun same => differ (congrArg bytes same)

def empty : Payload := ⟨.empty⟩

def size (payload : Payload) : Nat :=
  payload.bytes.size

def isEmpty (payload : Payload) : Bool :=
  payload.size == 0

/-- The size alone, never the content. -/
def inspect (payload : Payload) : String :=
  "TransportData(" ++ toString payload.size ++ " bytes)"

end Payload

/-- An exported function: its address in the host's table of exports, never zero. -/
structure FunctionRef where
  bits : UInt64
  ne_zero : bits ≠ 0
deriving DecidableEq

namespace FunctionRef

/-- Zero names no function. -/
def ofBits? (bits : UInt64) : Option FunctionRef :=
  if valid : bits ≠ 0 then some ⟨bits, valid⟩ else none

def inspect (function : FunctionRef) : String :=
  "FunctionRef(0x" ++ Text.Hex.word function.bits ++ ")"

end FunctionRef

/-- A message to one thread.  `receiverIndex` tells apart the calls that wait for one receiver;
a message is reusable once its delivery is complete. -/
structure Message where
  kind : MessageKind
  sender : Handle
  payload : Payload
  function : Option FunctionRef
  receiverIndex : UInt64
  reusable : Bool := false
deriving DecidableEq

namespace Message

/-- A message of the system rather than of a thread: no sender, no payload, no function. -/
def notification (kind : MessageKind) (receiverIndex : UInt64) : Message :=
  { kind, sender := .empty, payload := .empty, function := none, receiverIndex }

def sentBy (message : Message) : Except Violation Handle :=
  if message.sender.isEmpty then .error .noSender else .ok message.sender

/-- The function that a call addresses. -/
def exportedFunction (message : Message) : Except Violation FunctionRef :=
  if message.kind.isCall then
    match message.function with
    | some function => .ok function
    | none => .error .callWithoutFunction
  else .error (.notACall message.kind)

def complete (message : Message) : Message :=
  { message with reusable := true }

end Message

end CoreEngines
