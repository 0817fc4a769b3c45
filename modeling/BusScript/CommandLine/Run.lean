import BusScript.CommandLine.Options
import BusScript.Context
import BusScript.Execution.Machine

/-!
# The command-line program

The program encodes one frame from fields that carry both their declaration
and their value, and prints the bytes in hex.
-/

namespace BusScript.CommandLine

/-- How the program ends. -/
inductive Report where
  /-- The command line is not understood, for the reason `e`. -/
  | usage (e : UsageError)
  /-- An explanation was asked for. -/
  | help
  /-- The frame is encoded; `printed` are its bytes, and `shown` is what the context shows. -/
  | encoded (printed shown : String)
  /-- The frame is refused, for the reason that `shown` gives. -/
  | refused (shown : String)
  /-- A number is not `Numeral.writable`, so that the reason cannot be written. -/
  | unwritable (shown : String)
  /-- The name was left blank, and nothing can be registered without one. -/
  | unnamed
deriving Repr, DecidableEq

/-- The text of the fault of an instruction without a name (`Report.unnamed`). -/
def unnamedMessage : String := "unhashable type: 'list'"

namespace Report

/-- The status that the program exits with: zero for `help` and `encoded`, two for `usage`. -/
def status : Report → UInt32
  | .help | .encoded _ _ => 0
  | .refused _ | .unwritable _ | .unnamed => 1
  | .usage _ => 2

/-- What is printed. The explanation that `help` asks for is left out. -/
def output : Report → String
  | .encoded printed _ => printed
  | _ => ""

/-- What is printed to the error stream: messages of the command line, and what the context
shows. -/
def diagnostics : Report → String
  | .usage e => "canscript: error: " ++ e.message ++ "\n"
  | .help => ""
  | .encoded _ shown | .refused shown => shown
  | .unwritable shown => shown ++ Numeral.unwritableMessage ++ "\n"
  | .unnamed => unnamedMessage ++ "\n"

end Report

namespace Options

/-- The instruction whose arguments are the `fields`, in their order. -/
def instruction (o : Options) (name : String) : Instruction where
  name := name
  canId := o.id
  params := o.fields.map fun f => { name := f.name, type := f.type }

/-- The values of the `fields`. A name that comes twice has its last value, as `Store.ofList`
binds it. -/
def actuals (o : Options) : Store :=
  Store.ofList (o.fields.map fun f => (f.name, Tagged.parse f.value))

/-- The engine that knows the `instruction`. A frame size of zero is no requirement. -/
def engine (o : Options) (name : String) : Engine :=
  Engine.addInstruction
    { verbose := o.verbose, frameSize := o.frameSize.filter (· ≠ 0) }
    (o.instruction name)

/-- Encode the frame with `Engine.send` in a fresh context, and report how that ended. -/
def report (o : Options) : Report :=
  match o.name with
  | none => .unnamed
  | some name =>
    let context := Context.fresh o.verbose
    let (result, w) := (o.engine name).send name o.actuals context.world
    let shown := w.shown o.verbose o.verbose
    match result with
    | .ok frame => .encoded (frame.hex ++ "\n") shown
    | .error (.error _) => .refused shown
    | .error .unwritable => .unwritable shown

end Options

/-- Run the program on its arguments: `parse` them, and encode the frame they ask for. -/
def run (args : List String) : Report :=
  match parse args with
  | .error e => .usage e
  | .ok .help => .help
  | .ok (.work o) => o.report

end BusScript.CommandLine
