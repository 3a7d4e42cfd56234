import CoreEngines.Message.Kind
import CoreEngines.ThreadId

/-!
Failures.  A broken usage contract is a violation, with one constructor per contract; it is
raised as an exception, which has a class, a group and a message.  A failure unwinds the operation
that meets it, and the ones that called it, through every scope that they hold open.
-/

namespace CoreEngines

/-- How bad an exception is; there is one degree, at which the core makes no more progress. -/
inductive ExceptionClass
  | error
deriving DecidableEq, Repr

namespace ExceptionClass

def display : ExceptionClass → String
  | error => "error"

def inspect : ExceptionClass → String
  | error => "Error"

end ExceptionClass

/-- Whose fault an exception is: the builder's of the engine table, or a user's of its parts. -/
inductive ExceptionGroup
  | badArgument
  | brokenInvariant
deriving DecidableEq, Repr

namespace ExceptionGroup

def label : ExceptionGroup → String
  | badArgument => "badarg"
  | brokenInvariant => "sysinv"

def inspect : ExceptionGroup → String
  | badArgument => "BadArg"
  | brokenInvariant => "SysInv"

def display : ExceptionGroup → String
  | badArgument => "(BadArg) errors were found with the given argument(s)"
  | brokenInvariant => "(SysInv) a system invariant has been broken"

end ExceptionGroup

/-- What is raised when a contract is broken. -/
structure Exception where
  exceptionClass : ExceptionClass
  group : ExceptionGroup
  message : String
deriving DecidableEq, Repr

def Exception.display (exception : Exception) : String :=
  exception.exceptionClass.display ++ ":" ++ exception.group.label ++ " - " ++ exception.message

/-- The contracts that callers can break. -/
inductive Violation
  /-- An engine table was asked for without any core. -/
  | emptyTable
  /-- A thread was asked for through a handle that refers to none. -/
  | emptyHandle
  | noSender
  /-- Only calls carry a function. -/
  | notACall (kind : MessageKind)
  | callWithoutFunction
  | enteredTwice (engine : CoreId)
  | contextExists (engine : CoreId)
  | enteredElsewhere (engine core : CoreId)
  | noContext (engine : CoreId)
  /-- A run loop was started with nothing to run. -/
  | nothingToRun (core : CoreId)
  | admittedTwice (thread : ThreadId)
  | noEngine (core : CoreId)
  /-- Thread-local storage was used while the core's manager ran no thread. -/
  | noThreadRunning (engine : CoreId)
deriving DecidableEq, Repr

namespace Violation

/-- Building a table takes an argument; all other contracts are about use. -/
def group : Violation → ExceptionGroup
  | emptyTable => .badArgument
  | _ => .brokenInvariant

def message : Violation → String
  | emptyTable => "engine table needs at least one core"
  | emptyHandle => "empty thread handle"
  | noSender => "message has no sender"
  | notACall kind => kind.display ++ " message has no exported function"
  | callWithoutFunction => "call message has no exported function"
  | enteredTwice engine => "engine " ++ engine.display ++ " entered twice"
  | contextExists engine => "engine " ++ engine.display ++ " already has an execution context"
  | enteredElsewhere engine core => "engine " ++ engine.display ++ " entered on " ++ core.display
  | noContext engine => "engine " ++ engine.display ++ " has no execution context"
  | nothingToRun core => "no threads to run on " ++ core.display
  | admittedTwice thread => "thread " ++ thread.display ++ " admitted twice"
  | noEngine core => "no engine for " ++ core.display
  | noThreadRunning engine => "no thread running on " ++ engine.display

def exception (violation : Violation) : Exception :=
  ⟨.error, violation.group, violation.message⟩

end Violation

/-- What can unwind an operation. -/
inductive Failure
  | violation (cause : Violation)
  /-- A mailbox was asked to reserve more slots than the address space holds. -/
  | capacityOverflow
  /-- A callback failed; the text is its own. -/
  | foreign (text : String)
  /-- A scope failed to close while another failure was unwinding through it. -/
  | aborted
deriving DecidableEq, Repr

/-- What an observer of the failure reads. -/
def Failure.display : Failure → String
  | violation cause => cause.exception.display
  | capacityOverflow => "capacity overflow"
  | foreign text => text
  | aborted => "failure while unwinding"

example : (Failure.violation (.enteredTwice ⟨2⟩)).display =
    "error:sysinv - engine core2 entered twice" := by decide

end CoreEngines
