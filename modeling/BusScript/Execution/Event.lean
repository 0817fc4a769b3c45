import BusScript.Store.Basic
import BusScript.Wire

/-!
# Events and the world of a run

A run changes the global variables and leaves a trace: texts that are logged,
frames that are sent, functions that are entered. The trace records all of
them, in order. What a host keeps of it and what a terminal shows of it are
decided by whoever reads the trace (`BusScript.Context`), so no such decision
can have an effect on a run.
-/

namespace BusScript

/-- The weight of a logged text. -/
inductive Severity where
  | info
  | warning
  | error
  | fatal
deriving Repr, DecidableEq

namespace Severity

/-- All severities, for the search by name in `ofName?`. -/
def all : List Severity := [.info, .warning, .error, .fatal]

/-- The name of a severity, under which `Context.texts` finds it. -/
def name : Severity → String
  | .info => "info"
  | .warning => "warning"
  | .error => "error"
  | .fatal => "fatal"

/-- The severity whose `Severity.name` is `name`, if there is one. -/
def ofName? (name : String) : Option Severity := all.find? (·.name = name)

/-- Whether a text is shown even to a host that wants little output: `error` and `fatal` are. -/
def serious : Severity → Bool
  | .error | .fatal => true
  | _ => false

end Severity

/-- Something that can be observed of a run, and is recorded in the `World.trace`. -/
inductive Event where
  /-- The `text` is logged with a severity. -/
  | log (severity : Severity) (text : String)
  /-- The `frame` is sent over the bus. -/
  | send (frame : Frame)
  /-- The `function` of this name is entered. -/
  | enter (function : String)
  /-- A fault is reported outside of a run, where there is no context to log it. -/
  | alarm (text : String)
deriving Repr, DecidableEq

/-- The logged text of an event, with its severity. -/
def Event.message? : Event → Option (Severity × String)
  | .log severity text => some (severity, text)
  | _ => none

/-- The frame of an event, if it is an `Event.send`. -/
def Event.frame? : Event → Option Frame
  | .send frame => some frame
  | _ => none

/-- What all calls of a run share: the variables `globals`, and the `trace` of all that
happened. -/
structure World where
  globals : Store
  trace : Array Event := #[]

namespace World

/-- Record an event at the end of the `trace`. -/
def record (w : World) (e : Event) : World := { w with trace := w.trace.push e }

/-- Log a text: `record` the event. -/
def log (w : World) (severity : Severity) (text : String) : World :=
  w.record (.log severity text)

/-- The logged texts of the `trace`, in order. -/
def messages (w : World) : List (Severity × String) := w.trace.toList.filterMap Event.message?

/-- The frames that were sent, in the order of the `trace`. -/
def frames (w : World) : List Frame := w.trace.toList.filterMap Event.frame?

@[simp] theorem globals_record (w : World) (e : Event) : (w.record e).globals = w.globals := rfl

@[simp] theorem globals_log (w : World) (severity : Severity) (text : String) :
    (w.log severity text).globals = w.globals := rfl

/-- Of a recorded event, `messages` gains what the event logs. -/
theorem messages_record (w : World) (e : Event) :
    (w.record e).messages = w.messages ++ e.message?.toList := by
  cases h : e.message? <;> simp [messages, record, List.filterMap_append, h]

/-- Of a recorded event, `frames` gains what the event sends. -/
theorem frames_record (w : World) (e : Event) :
    (w.record e).frames = w.frames ++ e.frame?.toList := by
  cases h : e.frame? <;> simp [frames, record, List.filterMap_append, h]

@[simp] theorem messages_log (w : World) (severity : Severity) (text : String) :
    (w.log severity text).messages = w.messages ++ [(severity, text)] :=
  messages_record w (.log severity text)

@[simp] theorem frames_log (w : World) (severity : Severity) (text : String) :
    (w.log severity text).frames = w.frames := by
  simp [log, frames_record, Event.frame?]

end World

end BusScript
