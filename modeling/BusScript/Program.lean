import BusScript.Store.Basic
import BusScript.Text

/-!
# Programs

A program is made of functions. A `Function` is a named list of statements with declared
arguments (`Param`); a `Statement` is plain data that hosts may store and rebuild. Loops are
bracketed by statements, and the `LoopIndex` of a function pairs the brackets up.

The main law is `Function.loopIndex_eq_ofBody`: an index that a function keeps can not be told
from one that is built anew.
-/

namespace BusScript

/-! ## Formal arguments

Functions and instructions declare their arguments. For an instruction the
declarations, in order, are also the layout of the frame on the wire.
-/

/-- The declaration of a formal argument of a `Function` or an `Instruction`. -/
structure Param where
  name : String
  /-- The name of the field type, as `FieldType.ofName?` reads it. -/
  type : String
  /-- Reserved; nothing reads it but `Param.render`. -/
  range : String := ""
  /-- The text form of the value that is used when the argument is not bound; `""` stands for no
  value. -/
  default : String := ""
deriving Repr, DecidableEq

namespace Param

/-- The first declaration of `name` among `params`. -/
def find? (params : List Param) (name : String) : Option Param :=
  params.find? (·.name = name)

/-- The text form of a declaration, with all four fields quoted by `Text.quote`. -/
def render (p : Param) : String :=
  "VarDef(name=" ++ Text.quote p.name ++ ", type=" ++ Text.quote p.type ++
    ", range=" ++ Text.quote p.range ++ ", default=" ++ Text.quote p.default ++ ")"

/-- The text form of a list of declarations, each as `render` shows it. -/
def renderList (params : List Param) : String :=
  "VarDefList([" ++ ", ".intercalate (params.map render) ++ "])"

end Param

/-! ## Statements

A statement is plain data: its form, a content text whose meaning depends on
the form, and a block of named arguments. Nothing ties form, content and
arguments together in the type, because hosts may store and rebuild
statements of any shape; what is missing shows when a statement is executed.
-/

/-- What a `Statement` does. -/
inductive Form where
  /-- Send the instruction named by the `content`. -/
  | callInstruction
  /-- Call the function named by the `content`. -/
  | callFunction
  /-- Open a loop that runs `$count` times. -/
  | loop
  /-- Close the innermost open loop. -/
  | endLoop
  /-- Return the value of the `content`. -/
  | ret
  /-- Assign `$varname $op1 $operand1 [$op2 $operand2]`. -/
  | setVar
  /-- Bind a local variable by a `content` of the form `name=value`. -/
  | setLocal
  /-- Bind a global variable by a `content` of the form `name=value`. -/
  | setGlobal
deriving Repr, DecidableEq

/-- All forms, for the search by name in `Form.ofName?`. -/
def Form.all : List Form :=
  [.callInstruction, .callFunction, .loop, .endLoop, .ret, .setVar, .setLocal, .setGlobal]

/-- The name of a form, as messages and stored programs have it. -/
def Form.name : Form → String
  | .callInstruction => "CALL_INSTRUCTION"
  | .callFunction => "CALL_FUNCTION"
  | .loop => "LOOP"
  | .endLoop => "END_LOOP"
  | .ret => "RETURN"
  | .setVar => "SET_VAR"
  | .setLocal => "SET_LOCAL"
  | .setGlobal => "SET_GLOBAL"

/-- The form whose `Form.name` is `name`, if there is one. -/
def Form.ofName? (name : String) : Option Form :=
  Form.all.find? (·.name = name)

/-- A statement of a function. What `content` and `args` mean depends on the `form`; nothing
reads the `note`. -/
structure Statement where
  form : Form
  content : String := ""
  args : Store := {}
  note : String := ""
deriving DecidableEq

namespace Statement

/-! ### Names of the arguments that loops and assignments read -/

/-- The argument of a `Form.loop` that says how many passes are made. -/
def countArg : String := "$count"

/-- The argument of a `Form.setVar` with the name of the variable that is assigned. -/
def targetArg : String := "$varname"

/-- The argument of a `Form.setVar` with the assignment operator, such as `=` or `+=`. -/
def assignArg : String := "$op1"

/-- The argument of a `Form.setVar` with the first operand. -/
def operandArg : String := "$operand1"

/-- The argument of a `Form.setVar` with the binary operator, if there is one. -/
def operatorArg : String := "$op2"

/-- The argument of a `Form.setVar` with the second operand, if there is one. -/
def secondArg : String := "$operand2"

/-! ### Builders -/

/-- A name or an operator as an argument: an explicit `var:` or `str:` text is read by
`Tagged.parse`, all else is a text as it stands. -/
def nameValue (text : String) : Tagged :=
  if "var:".toList.isPrefixOf text.toList || "str:".toList.isPrefixOf text.toList then
    Tagged.parse text
  else Tagged.ofText text

/-- Send the instruction `name` with the actual arguments `args`. -/
def callInstruction (name : String) (args : Store) (note : String) : Statement :=
  ⟨.callInstruction, name, args, note⟩

/-- Call the function `name` with the actual arguments `args`. -/
def callFunction (name : String) (args : Store) (note : String) : Statement :=
  ⟨.callFunction, name, args, note⟩

/-- Open a loop. The `count` is a number or an expression, and is kept as `countArg`. -/
def loop (count : Tagged) (note : String) : Statement :=
  ⟨.loop, "", Store.empty.set countArg count, note⟩

/-- Close the innermost loop that a `Statement.loop` has opened. -/
def endLoop (note : String) : Statement := ⟨.endLoop, "", {}, note⟩

/-- Return the value of the expression `expr`, a tagged text such as `var:x`. -/
def ret (expr note : String) : Statement := ⟨.ret, expr, {}, note⟩

/-- Assign `target assign operand [operator second]`. An empty `operator` or `second` is left
out. -/
def setVar (target assign : String) (operand : Tagged) (operator : String) (second : Tagged)
    (note : String) : Statement :=
  let one := ((Store.empty.set targetArg (nameValue target)).set assignArg
    (nameValue assign)).set operandArg operand
  let two := if operator = "" then one else one.set operatorArg (nameValue operator)
  ⟨.setVar, "", two.set secondArg second, note⟩

/-- Bind a local variable by the text `expr`, which has the form `name=value`. -/
def setLocal (expr note : String) : Statement := ⟨.setLocal, expr, {}, note⟩

/-- Bind a global variable by the text `expr`, which has the form `name=value`. -/
def setGlobal (expr note : String) : Statement := ⟨.setGlobal, expr, {}, note⟩

/-- The text form of a statement: the name of its `form`, and its `content` quoted. -/
def render (s : Statement) : String :=
  "Statement(" ++ s.form.name ++ ", " ++ Text.quote s.content ++ ")"

end Statement

/-! ## The loop index

Loops are bracketed by statements, so a jump needs to know which statement
closes a loop and which opened it. The index pairs them up in one pass with a
stack of open positions: each closing statement belongs to the most recent
open one. A list of statements without such a pairing has no index, but a
fault that names the first position at which the pairing fails.
-/

/-- How the brackets in a list of statements fail to pair up. -/
inductive Unpaired where
  /-- A `Form.endLoop` closes a loop that is not open. -/
  | notOpened
  /-- A `Form.loop` is never closed. -/
  | notClosed
deriving Repr, DecidableEq

/-- A fault in the structure of a function: what is unpaired, and at which `position` of which
`function` it shows first. -/
structure LoopFault where
  unpaired : Unpaired
  function : String
  position : Nat
deriving Repr, DecidableEq

/-- The wording of a fault, with the name of the function as it was given to `LoopIndex.scan`.
-/
def LoopFault.message (e : LoopFault) : String :=
  match e.unpaired with
  | .notOpened =>
    "Unpaired END_LOOP at statement " ++ toString e.position ++
      " in function '" ++ e.function ++ "'"
  | .notClosed =>
    "LOOP at statement " ++ toString e.position ++
      " in function '" ++ e.function ++ "' has no END_LOOP"

/-- The pairs of positions at which loops open and close, as `LoopIndex.scan` finds them. -/
structure LoopIndex where
  pairs : List (Nat × Nat)
deriving Repr, DecidableEq

namespace LoopIndex

/-- Pair up the loops of `forms`, the first of which stands at `pos`. `opened`
are the open positions, innermost first, and `pairs` the pairs found so far. -/
def scan (function : String) (pos : Nat) (opened : List Nat) (pairs : List (Nat × Nat)) :
    List Form → Except LoopFault LoopIndex
  | [] =>
    match opened with
    | [] => .ok ⟨pairs⟩
    | start :: _ => .error ⟨.notClosed, function, start⟩
  | .loop :: forms => scan function (pos + 1) (pos :: opened) pairs forms
  | .endLoop :: forms =>
    match opened with
    | [] => .error ⟨.notOpened, function, pos⟩
    | start :: opened => scan function (pos + 1) opened ((start, pos) :: pairs) forms
  | _ :: forms => scan function (pos + 1) opened pairs forms

/-- The index of a list of forms. The name `function` only shows in a `LoopFault`. -/
def ofForms (function : String) (forms : List Form) : Except LoopFault LoopIndex :=
  scan function 0 [] [] forms

/-- The index of the statements of a function, by their forms alone. -/
def ofBody (function : String) (body : List Statement) : Except LoopFault LoopIndex :=
  ofForms function (body.map (·.form))

/-- The other end of the loop that opens or closes at `pos`. -/
def partner? (index : LoopIndex) (pos : Nat) : Option Nat :=
  index.pairs.findSome? fun (start, stop) =>
    if start = pos then some stop
    else if stop = pos then some start
    else none

/-- Where to jump from `pos`: to the other end of its loop (`partner?`). A position at which no
loop opens or closes stays where it is. -/
def partner (index : LoopIndex) (pos : Nat) : Nat := (index.partner? pos).getD pos

/-- Both directions of all `pairs`, in the order of positions. -/
def entries (index : LoopIndex) : List (Nat × Nat) :=
  (index.pairs.flatMap fun (start, stop) => [(start, stop), (stop, start)]).mergeSort
    fun a b => a.1 ≤ b.1

end LoopIndex

/-! ## Functions

A function is a named list of statements that grows at the end. Its loop index
is built on demand and kept until the next statement is added. A kept index is
by construction the one of the current statements, so keeping it can not be
told from building it anew: that is `loopIndex_eq_ofBody`.
-/

/-- A named, ordered list of statements. Build one with `Function.make`, and let it grow with
`Function.append`. -/
structure Function where
  name : String
  params : List Param
  body : List Statement
  note : String
  /-- The index of the `body`, once it has been built. -/
  index? : Option LoopIndex
  /-- A kept index is what `LoopIndex.ofBody` gives of the current `body`. -/
  coherent : ∀ index, index? = some index → LoopIndex.ofBody name body = .ok index

namespace Function

/-- A function without a kept index, so that `coherent` holds of itself. -/
def make (name : String) (params : List Param) (body : List Statement) (note : String) :
    Function where
  name := name
  params := params
  body := body
  note := note
  index? := none
  coherent := fun _ h => nomatch h

/-- Add a statement at the end, and give up the kept `index?`. -/
def append (f : Function) (s : Statement) : Function :=
  make f.name f.params (f.body ++ [s]) f.note

/-- The index of the function's loops: the kept `index?`, or a new one from `LoopIndex.ofBody`.
-/
def loopIndex (f : Function) : Except LoopFault LoopIndex :=
  match f.index? with
  | some index => .ok index
  | none => LoopIndex.ofBody f.name f.body

/-- Build the index now and keep it as `index?`, or report why there is none. -/
def validate (f : Function) : Except LoopFault Function :=
  match h : f.loopIndex with
  | .error e => .error e
  | .ok index => .ok { f with
      index? := some index
      coherent := fun i hi => by
        cases hi
        unfold loopIndex at h
        split at h
        · rename_i kept hk
          cases h
          exact f.coherent _ hk
        · exact h }

/-- The number of statements of the `body`. -/
def size (f : Function) : Nat := f.body.length

/-- The text form of a function: its `name` quoted, and its `size`. -/
def render (f : Function) : String :=
  "FunctionDefinition(" ++ Text.quote f.name ++ ", " ++ toString f.size ++ " statements)"

/-- A kept index can not be told from one that is built anew: `loopIndex` is a function of
`name` and `body` alone. -/
theorem loopIndex_eq_ofBody (f : Function) : f.loopIndex = LoopIndex.ofBody f.name f.body := by
  unfold loopIndex
  split
  · rename_i index h
    exact (f.coherent index h).symm
  · rfl

end Function

end BusScript
