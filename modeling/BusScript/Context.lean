import BusScript.Execution.Event

/-!
# Contexts

A context is what a host keeps between calls: the global variables, the most
recent frames and messages, and whether it wants to see everything. It takes
up the world that a call leaves (`Context.absorb`); nothing else of it is seen
by a call.
-/

namespace BusScript

/-- The most recent items of a sequence, as many as the `limit` allows. -/
structure History (α : Type) where
  /-- The greatest number of items that are kept; all without it. -/
  limit : Option Nat
  /-- The items, oldest first. -/
  items : List α := []
deriving Repr, DecidableEq

namespace History

variable {α : Type}

/-- The last items of `as`, as many as `limit` allows. -/
def keepLast (limit : Option Nat) (as : List α) : List α :=
  match limit with
  | none => as
  | some n => as.drop (as.length - n)

/-- Add the items `as` at the end, and keep the last ones of all (`keepLast`). -/
def append (h : History α) (as : List α) : History α :=
  { h with items := keepLast h.limit (h.items ++ as) }

/-- Forget all items. The `limit` stays. -/
def clear (h : History α) : History α := { h with items := [] }

end History

/-- What a host keeps between calls. -/
structure Context where
  /-- Show all messages, not only those that are `Severity.serious`. -/
  verbose : Bool := false
  globals : Store := {}
  frames : History Frame
  messages : History (Severity × String)

/-- Why `Context.make` makes no context: a history cannot have such a limit. -/
inductive LimitError where
  /-- The `limit` does not fit into a signed word of 64 bits. -/
  | tooLarge (limit : Int)
  /-- A history cannot keep a negative number of items. -/
  | negative (limit : Int)
deriving Repr, DecidableEq

/-- The wording of an error. -/
def LimitError.message : LimitError → String
  | .tooLarge _ => "Python int too large to convert to C ssize_t"
  | .negative _ => "maxlen must be non-negative"

namespace Context

/-- The number of frames, and of messages, that a `fresh` context keeps. -/
def defaultLimit : Int := 1000

/-- The limit of a `History`. Whether it is a word is checked before its sign. -/
def checkLimit : Option Int → Except LimitError (Option Nat)
  | none => .ok none
  | some n =>
    if n < Int64.minValue.toInt ∨ Int64.maxValue.toInt < n then .error (.tooLarge n)
    else if n < 0 then .error (.negative n)
    else .ok (some n.toNat)

/-- A context without variables, frames or messages. The limit of frames is checked before that
of messages. -/
def make (verbose : Bool) (maxFrames maxMessages : Option Int) :
    Except LimitError Context :=
  match checkLimit maxFrames with
  | .error e => .error e
  | .ok frames =>
    match checkLimit maxMessages with
    | .error e => .error e
    | .ok messages => .ok ⟨verbose, {}, ⟨frames, []⟩, ⟨messages, []⟩⟩

/-- The context of a call that is made without one, with `defaultLimit` for both histories. -/
def fresh (verbose : Bool) : Context :=
  ⟨verbose, {}, ⟨some defaultLimit.toNat, []⟩, ⟨some defaultLimit.toNat, []⟩⟩

/-- The world in which a call begins: the `globals` of the context, and no trace. -/
def world (c : Context) : World := ⟨c.globals, #[]⟩

/-- Take up the world that a call leaves: its globals, and what its trace adds to both
histories. -/
def absorb (c : Context) (w : World) : Context :=
  { c with
    globals := w.globals
    frames := c.frames.append w.frames
    messages := c.messages.append w.messages }

/-- Forget `frames` and `messages`, and keep the variables. -/
def clear (c : Context) : Context :=
  { c with frames := c.frames.clear, messages := c.messages.clear }

/-- A severity that is asked for by `name` and does not exist. -/
structure UnknownSeverity where
  name : String
deriving Repr, DecidableEq

/-- The wording of an error. -/
def UnknownSeverity.message (e : UnknownSeverity) : String := "Unknown severity: " ++ e.name

/-- The kept texts, oldest first, only those of one `severity` if it is named. -/
def texts (c : Context) (severity : Option String) : Except UnknownSeverity (List String) :=
  match severity with
  | none => .ok (c.messages.items.map (·.2))
  | some name =>
    match Severity.ofName? name with
    | none => .error ⟨name⟩
    | some severity => .ok ((c.messages.items.filter (·.1 = severity)).map (·.2))

end Context

/-! ### What a terminal shows -/

/-- The line that an event shows, given what context and engine ask for. Logged texts show if
they are `Severity.serious` or the context is verbose, entered functions if the engine is. -/
def Event.line? (contextVerbose engineVerbose : Bool) : Event → Option String
  | .log severity text =>
    if contextVerbose || severity.serious then
      some ("[" ++ severity.name ++ "] " ++ text ++ "\n")
    else none
  | .send _ => none
  | .enter function =>
    if engineVerbose then some ("[canscript] exec function " ++ function ++ "\n") else none
  | .alarm text => some ("[fatal] " ++ text ++ "\n")

/-- The text that a trace shows: the `Event.line?` of each of its events. -/
def World.shown (contextVerbose engineVerbose : Bool) (w : World) : String :=
  String.join (w.trace.toList.filterMap (Event.line? contextVerbose engineVerbose))

end BusScript
