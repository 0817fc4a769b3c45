import BusScript.Operator
import BusScript.Program
import BusScript.Store.Resolve
import BusScript.Wire

/-!
# Memory

The variables that a statement sees, and what can go wrong with it: a `BindingError` makes a
run skip a statement, a `Fault` ends the run. Assignments (`Memory.assign`, `Memory.setVar`)
are functions from scopes to scopes or to an error.
-/

namespace BusScript

/-! ## Errors of a run

Errors come in two classes. A statement that cannot bind or compute a
variable is *skipped*: its `BindingError` is logged and the run goes on. A
`Fault` *ends* the run: a definition is missing, the program is malformed, an
instruction cannot be encoded, or calls are nested too deeply.
-/

/-- Why a statement could not bind or compute a variable. The statement is skipped. -/
inductive BindingError where
  /-- A statement lacks the argument `arg` that its form needs. -/
  | missing (arg : String)
  /-- The variable `name` is not bound, or a name that it leads to is not. -/
  | undefined (name : String)
  /-- A path of references comes back to itself, along `cycle`. -/
  | cyclic (cycle : Cycle)
  /-- Only one of the binary operator and the second operand is given. -/
  | unpairedOperand
  /-- The content of a statement has not the form `name=value`. -/
  | malformed (content : String)
  /-- There is no assignment operator with this `sign` (`Memory.Assignment.ofSign?`). -/
  | assignment (sign : String)
  /-- A binary operator has no result, for the reason `e`. -/
  | operator (e : OperatorError)
deriving Repr, DecidableEq

/-- The wording of an error, as it is logged behind the position of the statement. -/
def BindingError.message : BindingError → String
  | .missing arg => "Missing argument: " ++ arg
  | .undefined name => "Undefined variable: " ++ name
  | .cyclic cycle => cycle.message
  | .unpairedOperand =>
    Statement.operatorArg ++ " and " ++ Statement.secondArg ++ " must be given together"
  | .malformed content => "Expected 'name=value', got " ++ Text.quote content
  | .assignment sign => "Unsupported assignment operator: '" ++ sign ++ "'"
  | .operator e => e.message

/-- What a name can be looked up as in an `Engine`. -/
inductive DefinitionKind where
  | function
  | instruction
deriving Repr, DecidableEq

/-- The word for a kind of definition in `Fault.message`. -/
def DefinitionKind.name : DefinitionKind → String
  | .function => "function"
  | .instruction => "instruction"

/-- Why a run ends early. -/
inductive Fault where
  /-- No definition of this kind is registered under `name`. -/
  | unknown (kind : DefinitionKind) (name : String)
  /-- The loops of a function are not paired up (`LoopIndex.scan`). -/
  | structural (e : LoopFault)
  /-- An instruction is not encoded (`Instruction.encode`). -/
  | encoding (e : EncodeError)
  /-- The call of `function` is nested at a `level` above the `limit`. -/
  | depth (level limit : Int) (function : String)
deriving Repr, DecidableEq

namespace Fault

/-- The wording of a fault. That of `depth` shows two integers, which have to be
`Numeral.writable`. -/
def message : Fault → String
  | .unknown kind name => "No such " ++ kind.name ++ ": " ++ name
  | .structural e => e.message
  | .encoding e => e.message
  | .depth level limit function =>
    "Call depth " ++ Numeral.decimal level ++ " exceeds " ++ Numeral.decimal limit ++
      " in function '" ++ function ++ "'"

/-- Whether a definition was missing: the one fault that the caller may survive. -/
def isUnknown : Fault → Bool
  | .unknown _ _ => true
  | _ => false

end Fault

/-! ## Variables and assignments

A statement sees three scopes: the arguments of the call, its local variables
and the global variables, in this order. Arguments are never written.

Everything here is a function from scopes to scopes or to an error, so that a
statement that fails has changed nothing: there is no partial effect to undo.
-/

/-- The scopes that a statement sees. -/
structure Memory where
  args : Store
  locals : Store
  globals : Store

namespace Memory

/-- The scopes in the order of look-up: `args`, then `locals`, then `globals`. -/
def scopes (m : Memory) : Scopes := [m.args, m.locals, m.globals]

/-- The value of an expression (`Scopes.eval`), which has to be defined. -/
def eval (m : Memory) (v : Tagged) : Except BindingError Tagged :=
  match Scopes.eval m.scopes v with
  | .error cycle => .error (.cyclic cycle)
  | .ok none => .error (.undefined v.payload)
  | .ok (some v) => .ok v

/-- The value of the argument `name` of a statement, evaluated where the statement stands. -/
def arg (m : Memory) (s : Statement) (name : String) : Except BindingError Tagged :=
  match s.args.get? name with
  | none => .error (.missing name)
  | some v => m.eval v

/-- The values of bindings, in order; the first one for which `eval` fails decides. -/
def evalAll (m : Memory) : List (String × Tagged) → Except BindingError (List (String × Tagged))
  | [] => .ok []
  | (name, v) :: bs =>
    match m.eval v with
    | .error e => .error e
    | .ok v =>
      match m.evalAll bs with
      | .error e => .error e
      | .ok rest => .ok ((name, v) :: rest)

/-- The arguments that a call statement passes: its own `args`, all of them evaluated. -/
def actuals (m : Memory) (s : Statement) : Except BindingError Store :=
  (m.evalAll s.args.bindings).map Store.ofList

/-! ### Assignments -/

/-- Bind a local variable by `Store.set`. -/
def setLocal (m : Memory) (name : String) (v : Tagged) : Memory :=
  { m with locals := m.locals.set name v }

/-- Bind a global variable by `Store.set`. -/
def setGlobal (m : Memory) (name : String) (v : Tagged) : Memory :=
  { m with globals := m.globals.set name v }

/-- The value that a compound assignment gives to a variable that holds
`held`. -/
def combine (m : Memory) (op : Operator) (held v : Tagged) :
    Except (Failure BindingError) Tagged :=
  match m.eval held with
  | .error e => .error (.error e)
  | .ok current => (op.apply current v).mapError (·.map .operator)

/-- A compound assignment changes a local variable of the name, or else a global one, by what
`combine` gives. Arguments of the call are never changed. -/
def compound (m : Memory) (name : String) (op : Operator) (v : Tagged) :
    Except (Failure BindingError) Memory :=
  match m.locals.get? name with
  | some held => (m.combine op held v).map (m.setLocal name)
  | none =>
    match m.globals.get? name with
    | some held => (m.combine op held v).map (m.setGlobal name)
    | none => .error (.error (.undefined name))

/-- What an assignment operator does to the variable on its left. -/
inductive Assignment where
  /-- Bind a global variable. -/
  | toGlobal
  /-- Bind a local variable. -/
  | toLocal
  /-- Combine the value of a variable with another one by `op`. -/
  | update (op : Operator)
deriving Repr, DecidableEq

/-- The assignment of a `sign`: `:=`, `=`, or the sign of an operator followed by `=`. -/
def Assignment.ofSign? (sign : String) : Option Assignment :=
  if sign = ":=" then some .toGlobal
  else if sign = "=" then some .toLocal
  else (Operator.all.find? fun op => sign = op.sign ++ "=").map .update

/-- Assign `v` to the variable `name`, by the assignment operator with this `sign`. -/
def assign (m : Memory) (name sign : String) (v : Tagged) : Except (Failure BindingError) Memory :=
  match Assignment.ofSign? sign with
  | some .toGlobal => .ok (m.setGlobal name v)
  | some .toLocal => .ok (m.setLocal name v)
  | some (.update op) => m.compound name op v
  | none => .error (.error (.assignment sign))

/-- The name of the variable that an assignment statement changes: the payload of `targetArg` as
it stands, whether tagged as a text or as a reference. -/
def target (s : Statement) : Except BindingError String :=
  match s.args.get? Statement.targetArg with
  | none => .error (.missing Statement.targetArg)
  | some v => if v.payload = "" then .error (.missing Statement.targetArg) else .ok v.payload

/-- The value on the right of an assignment whose first operand has the value `first`. Operator
and second operand are given together, or neither is. -/
def rightSide (m : Memory) (s : Statement) (first : Tagged) :
    Except (Failure BindingError) Tagged :=
  match s.args.contains Statement.operatorArg, s.args.contains Statement.secondArg with
  | true, true =>
    match m.arg s Statement.operatorArg with
    | .error e => .error (.error e)
    | .ok sign =>
      match m.arg s Statement.secondArg with
      | .error e => .error (.error e)
      | .ok second =>
        (Operator.applySign sign.payload first second).mapError (·.map .operator)
  | false, false => .ok first
  | _, _ => .error (.error .unpairedOperand)

/-- Execute an assignment statement. Its arguments are looked at in the order target, assignment
operator, first operand, and then the `rightSide`. -/
def setVar (m : Memory) (s : Statement) : Except (Failure BindingError) Memory :=
  match target s with
  | .error e => .error (.error e)
  | .ok name =>
    match m.arg s Statement.assignArg with
    | .error e => .error (.error e)
    | .ok sign =>
      match m.arg s Statement.operandArg with
      | .error e => .error (.error e)
      | .ok first =>
        match m.rightSide s first with
        | .error e => .error e
        | .ok v => m.assign name sign.payload v

/-- Name and value of a `content` of the form `name=value`, cut at the first equals sign. -/
def parseBinding (content : String) : Except BindingError (String × Tagged) :=
  let (name, text) := Text.cut content "="
  if name = "" then .error (.malformed content) else .ok (name, .parse text)

/-- Execute a `Form.setLocal` statement, whose content is read by `parseBinding`. -/
def setLocalStatement (m : Memory) (s : Statement) : Except (Failure BindingError) Memory :=
  match parseBinding s.content with
  | .error e => .error (.error e)
  | .ok (name, v) => .ok (m.setLocal name v)

/-- Execute a `Form.setGlobal` statement, whose content is read by `parseBinding`. -/
def setGlobalStatement (m : Memory) (s : Statement) : Except (Failure BindingError) Memory :=
  match parseBinding s.content with
  | .error e => .error (.error e)
  | .ok (name, v) => .ok (m.setGlobal name v)

end Memory

end BusScript
