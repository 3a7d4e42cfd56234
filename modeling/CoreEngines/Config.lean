import CoreEngines.CoreId
import CoreEngines.Text.Record

/-!
Configuration of an engine table: which core starts up, when threads are admitted, how many
slots a mailbox reserves, and what is traced.
-/

namespace CoreEngines

/-- When a context admits the threads that wait in its registry. -/
inductive Admission
  /-- Once, before the run loop starts. -/
  | startup
  /-- Before the run loop starts, and again after every quantum that asks for more. -/
  | everyQuantum
deriving DecidableEq, Repr

namespace Admission

def inspect : Admission → String
  | startup => "Startup"
  | everyQuantum => "EveryQuantum"

def named? (text : String) : Option Admission :=
  [startup, everyQuantum].find? (·.inspect == text)

end Admission

/-- What an engine does once its core has entered it. -/
inductive Mode
  /-- The core halts. -/
  | disabled
  /-- The core runs threads through an execution context. -/
  | execution
  /-- The core idles and wakes for interrupts alone. -/
  | service
deriving DecidableEq, Repr, Inhabited

namespace Mode

def display : Mode → String
  | disabled => "disabled"
  | execution => "execution"
  | service => "service"

def inspect : Mode → String
  | disabled => "Disabled"
  | execution => "Execution"
  | service => "Service"

def named? (text : String) : Option Mode :=
  [disabled, execution, service].find? (·.inspect == text)

end Mode

/-- How much a trace event matters, the weightiest first. -/
inductive TraceLevel
  | info
  | debug
  | trace
deriving DecidableEq, Repr

namespace TraceLevel

def display : TraceLevel → String
  | info => "INFO"
  | debug => "DEBUG"
  | trace => "TRACE"

def detail : TraceLevel → Nat
  | info => 0
  | debug => 1
  | trace => 2

/-- A filter lets through the events that are no more detailed than itself. -/
def admits (filter level : TraceLevel) : Bool :=
  level.detail ≤ filter.detail

end TraceLevel

/-- The configuration that all engines of one table share. -/
structure Config where
  admission : Admission := .everyQuantum
  bootstrapCore : CoreId := ⟨1⟩
  mailboxReserve : Nat := 128
  tracingSourceFile : Bool := false
  tracingSourceLine : Bool := false
  tracingSourceName : Bool := false
  tracingThreadInfo : Bool := true
  tracingVerbose : Bool := true
  tracingVeryVerbose : Bool := false
deriving DecidableEq, Repr, Inhabited

namespace Config

/-- The most detailed events that are traced. -/
def traceFilter (config : Config) : TraceLevel :=
  if config.tracingVeryVerbose then .trace
  else if config.tracingVerbose then .debug
  else .info

/-- Set the tracing option that is printed as `name`; any other name changes nothing. -/
def setTracing (config : Config) (name : String) (value : Bool) : Config :=
  match name with
  | "tracing_source_file" => { config with tracingSourceFile := value }
  | "tracing_source_line" => { config with tracingSourceLine := value }
  | "tracing_source_name" => { config with tracingSourceName := value }
  | "tracing_thread_info" => { config with tracingThreadInfo := value }
  | "tracing_verbose" => { config with tracingVerbose := value }
  | "tracing_very_verbose" => { config with tracingVeryVerbose := value }
  | _ => config

def inspect (config : Config) : String :=
  Text.record "EngineConfig"
    [⟨"admission", config.admission.inspect⟩,
     ⟨"bootstrap_core", config.bootstrapCore.inspect⟩,
     ⟨"mailbox_reserve", toString config.mailboxReserve⟩,
     ⟨"tracing_source_file", Text.truth config.tracingSourceFile⟩,
     ⟨"tracing_source_line", Text.truth config.tracingSourceLine⟩,
     ⟨"tracing_source_name", Text.truth config.tracingSourceName⟩,
     ⟨"tracing_thread_info", Text.truth config.tracingThreadInfo⟩,
     ⟨"tracing_verbose", Text.truth config.tracingVerbose⟩,
     ⟨"tracing_very_verbose", Text.truth config.tracingVeryVerbose⟩]

end Config

end CoreEngines
