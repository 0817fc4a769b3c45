import BusScript.Execution.Event
import BusScript.Execution.Memory
import BusScript.Program

/-!
# The state of a call

An `Activation` is the state of one call of a function: the position of the
next statement, the scopes of the call and one counter for each loop that is
being run. Jumps go through the loop index of the function. Counters belong to
the activation, not to the program, so that nested and repeated calls of one
function do not share them.

A statement leads to a `Turn`. Statements that call nothing are executed here,
each form by a function of its own; the forms that call are in
`BusScript.Execution.Machine`.
-/

namespace BusScript

/-- The global variable that holds the value of the last completed call. -/
def returnName : String := "$return"

/-- Forget the value that a call has left in `returnName`. -/
def World.forgetReturn (w : World) : World := { w with globals := w.globals.erase returnName }

/-- Keep the value `v` that a call returns as `returnName`. -/
def World.keepReturn (w : World) (v : Tagged) : World :=
  { w with globals := w.globals.set returnName v }

/-- Progress of a loop that is being run: the number of `started` passes, and the `count` of
passes to make. -/
structure Counter where
  started : Int
  count : Int
deriving Repr, DecidableEq

/-- The state of one call of a `Function`. -/
structure Activation where
  function : Function
  args : Store
  locals : Store
  /-- The position of the next statement in the body of `function`. -/
  pos : Nat := 0
  /-- Counters of the loops that are being run, by the position of the
  statement that opens the loop. -/
  loops : List (Nat × Counter) := []
  /-- The value to return, once a `Form.ret` statement has given one. -/
  result : Option Tagged := none

/-- How a call ended, and the `world` it left. The `result` is a value, none, or a fault. -/
structure Outcome where
  result : Except (Failure Fault) (Option Tagged)
  world : World

/-- What one statement leads to: with `next` a state to go on from, with `stop` the end of the
call by a fault. -/
inductive Turn where
  | next (a : Activation) (w : World)
  | stop (f : Failure Fault) (w : World)

namespace Activation

/-- A call of `f` starts at its first statement; the arguments `args` are also the first local
variables. -/
def start (f : Function) (args : Store) : Activation where
  function := f
  args := args
  locals := args

/-- The scopes that the statements of a call see: its own, and the global variables of `w`. -/
def memory (a : Activation) (w : World) : Memory := ⟨a.args, a.locals, w.globals⟩

/-- The next statement, or `none` if the call is over. -/
def current? (a : Activation) : Option Statement := a.function.body[a.pos]?

/-- Go on at the position `pos`. -/
def goto (a : Activation) (pos : Nat) : Activation := { a with pos }

/-- Go on with the following statement. -/
def advance (a : Activation) : Activation := a.goto (a.pos + 1)

/-- Go behind the last statement, where `current?` finds nothing. -/
def leave (a : Activation) : Activation := a.goto a.function.size

/-- The text of a log message about the next statement: function, position, form, and `text`. -/
def describe (a : Activation) (form : Form) (text : String) : String :=
  a.function.name ++ "[" ++ toString a.pos ++ "] " ++ form.name ++ ": " ++ text

/-- Log the error `e` of the next statement and go on with the following one. -/
def skip (a : Activation) (form : Form) (e : BindingError) (w : World) : Turn :=
  .next a.advance (w.log .error (a.describe form e.message))

/-- Take over the scopes that an assignment leaves, or `skip` the statement if it has failed. A
result that is too long to be written ends the call. -/
def commit (a : Activation) (form : Form) (w : World) :
    Except (Failure BindingError) Memory → Turn
  | .error (.error e) => a.skip form e w
  | .error .unwritable => .stop .unwritable w
  | .ok m => .next { a with locals := m.locals }.advance { w with globals := m.globals }

/-- How a call ends behind its last statement. Whatever value nested calls have left, a call
without a `result` leaves none. -/
def finish (a : Activation) (w : World) : Outcome :=
  match a.result with
  | some v => ⟨.ok (some v), w⟩
  | none => ⟨.ok none, w.forgetReturn⟩

/-! ### Loops -/

/-- Start another pass of the loop at the next statement, or, if `c.count` passes were started,
forget its counter and go on behind the loop. -/
def pass (a : Activation) (index : LoopIndex) (c : Counter) : Activation :=
  let others := a.loops.filter (·.1 ≠ a.pos)
  if c.started < c.count then
    { a with loops := (a.pos, { c with started := c.started + 1 }) :: others }.advance
  else { a with loops := others }.goto (index.partner a.pos + 1)

/-- Why `loopCount` gives a loop no number of passes. -/
inductive CountError where
  | binding (e : BindingError)
  | numeral (e : Numeral.Error)

/-- The wording of an error, which is that of its cause. -/
def CountError.message : CountError → String
  | .binding e => e.message
  | .numeral e => e.message

/-- The number of passes of a loop that is about to be run: the payload of its `countArg`, read
as a numeral whatever its tag. -/
def loopCount (m : Memory) (s : Statement) : Except CountError Int :=
  match m.arg s Statement.countArg with
  | .error e => .error (.binding e)
  | .ok v => (Numeral.parse v.payload).mapError .numeral

/-- Enter a loop, or go on with it if it has a `Counter`. A loop whose count is no number is
left out with an error message. -/
def loop (a : Activation) (s : Statement) (w : World) (index : LoopIndex) : Turn :=
  match a.loops.lookup a.pos with
  | some c => .next (a.pass index c) w
  | none =>
    match loopCount (a.memory w) s with
    | .error e =>
      .next (a.goto (index.partner a.pos + 1)) (w.log .error (a.describe .loop
        ("invalid " ++ Statement.countArg ++ ", loop skipped: " ++ e.message)))
    | .ok n => if Numeral.writable n then .next (a.pass index ⟨0, n⟩) w else .stop .unwritable w

/-- Go on with the loop index of the function by `go`; without an index the call ends with
`Fault.structural`. -/
def withIndex (a : Activation) (w : World) (go : LoopIndex → Turn) : Turn :=
  match a.function.loopIndex with
  | .ok index => go index
  | .error e => .stop (.error (.structural e)) (w.log .fatal e.message)

/-! ### Returning -/

/-- Return the value of the statement's `content`. Whatever becomes of it, the call is over
(`leave`). -/
def ret (a : Activation) (s : Statement) (w : World) : Turn :=
  match Scopes.eval (a.memory w).scopes (.parse s.content) with
  | .error cycle => .next a.leave (w.log .error (a.describe .ret cycle.message))
  | .ok none =>
    .next a.leave (w.log .error (a.describe .ret ("undefined value " ++ Text.quote s.content)))
  | .ok (some v) =>
    if v.isEmpty then .next a.leave w
    else .next { a with result := some v }.leave (w.keepReturn v)

end Activation

end BusScript
