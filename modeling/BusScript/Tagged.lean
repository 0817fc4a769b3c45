import BusScript.Bytes
import BusScript.Numeral.Integer
import BusScript.Numeral.Binary64
import BusScript.Text

/-!
# Tagged values

Every literal, variable and expression of a program is a payload text with a
tag that says how to read it: `int:42`, `str:hello`, `var:name`,
`hex:FF 1A 00`. Text without a colon has the empty tag. Tags are open: five of
them have a meaning (`Kind`), any other is kept as it is.

Hosts may also hand over plain numbers; `Literal` is what they may pass and
`Literal.toTagged` the value that it stands for. A host that asks for a number
by its kind (`Literal.labelInt`, `Literal.labelFloat`) gets the tag of that
kind on whatever it passed: only the readers look into the payload.
-/

namespace BusScript

/-- The tags that have a meaning; a `Tagged` value may also have any other tag. -/
inductive Kind where
  /-- A text, as it stands. -/
  | str
  /-- An integer. -/
  | int
  /-- A floating-point number. -/
  | float
  /-- A reference to the variable whose name is the payload (`Tagged.isVar`). -/
  | var
  /-- Bytes in hex (`Bytes.ofHex`). -/
  | hex
deriving Repr, DecidableEq

/-- The tag of a kind, as it stands before the colon. -/
def Kind.tag : Kind → String
  | .str => "str"
  | .int => "int"
  | .float => "float"
  | .var => "var"
  | .hex => "hex"

/-- The kind that a `tag` names, if it has a meaning. -/
def Kind.ofTag? (tag : String) : Option Kind :=
  [Kind.str, .int, .float, .var, .hex].find? (·.tag = tag)

/-- A `payload` text and the `tag` that says how to read it. -/
structure Tagged where
  tag : String
  payload : String
deriving Repr, DecidableEq

namespace Tagged

/-- Read `tag:payload`, cut at the first colon. Text without a colon is all payload. -/
def parse (text : String) : Tagged :=
  let (tag, payload) := Text.cut text ":"
  ⟨tag, payload⟩

/-- The text form of a value. With an empty `tag` there is no colon either. -/
def render (v : Tagged) : String :=
  if v.tag = "" then v.payload else v.tag ++ ":" ++ v.payload

/-- A value with its parts named and quoted, as diagnostics show it. See `render` for the form
that can be read back. -/
def describe (v : Tagged) : String :=
  "TaggedValue(tag=" ++ Text.quote v.tag ++ ", payload=" ++ Text.quote v.payload ++ ")"

/-- The integer `n` with the tag of `Kind.int`, if it is `Numeral.writable`. -/
def ofInt? (n : Int) : Option Tagged :=
  (Numeral.write? n).map fun text => ⟨Kind.int.tag, text⟩

/-- A floating-point number with the tag of `Kind.float`. -/
def ofFloat (x : Binary64) : Tagged := ⟨Kind.float.tag, x.text⟩

/-- A text with the tag of `Kind.str`. -/
def ofText (text : String) : Tagged := ⟨Kind.str.tag, text⟩

/-- A reference to the variable `name`. -/
def reference (name : String) : Tagged := ⟨Kind.var.tag, name⟩

/-- The `Kind` of a value whose tag has a meaning. -/
def kind? (v : Tagged) : Option Kind := Kind.ofTag? v.tag

/-- Whether a value refers to a variable: its tag is that of `Kind.var`. -/
def isVar (v : Tagged) : Bool := v.tag = Kind.var.tag

/-- Whether a value has neither tag nor payload. An empty value is never kept in a `Store`. -/
def isEmpty (v : Tagged) : Bool := v.tag = "" && v.payload = ""

/-- Why `toInt` does not read a payload as an integer. -/
inductive IntError where
  | numeral (e : Numeral.Error)
  | hex (e : Bytes.HexError)
deriving Repr, DecidableEq

/-- The wording of an error, which is that of its cause. -/
def IntError.message : IntError → String
  | .numeral e => e.message
  | .hex e => e.message

/-- The payload as bytes, by `Bytes.ofHex` whatever the tag. -/
def toBytes (v : Tagged) : Except Bytes.HexError Bytes := Bytes.ofHex v.payload

/-- The payload as an integer. The bytes of a `Kind.hex` value are read with the most
significant byte first; with any other tag, `Numeral.parse` reads the payload. -/
def toInt (v : Tagged) : Except IntError Int :=
  if v.tag = Kind.hex.tag then
    match v.toBytes with
    | .ok bs => .ok (Bytes.toNat bs)
    | .error e => .error (.hex e)
  else
    match Numeral.parse v.payload with
    | .ok n => .ok n
    | .error e => .error (.numeral e)

/-- The payload as a floating-point number, by `Binary64.parse` whatever the tag. -/
def toFloat (v : Tagged) : Except Binary64.ReadError Binary64 := Binary64.parse v.payload

end Tagged

/-! ### Values that a host hands over -/

/-- A value as a host may pass it; `Literal.toTagged` gives it a tag. -/
inductive Literal where
  /-- A tagged value, which is passed on as it is. -/
  | tagged (v : Tagged)
  /-- The text form of a tagged value, for `Tagged.parse`. -/
  | text (s : String)
  /-- An integer. -/
  | int (n : Int)
  /-- A floating-point number. -/
  | float (x : Binary64)
  /-- A truth value; there is no tag for it. -/
  | flag (b : Bool)
deriving Repr, DecidableEq

/-- Why `Literal.toTagged` gives no tagged form of a host's value. -/
inductive LiteralError where
  /-- Truth values have no tag. -/
  | flag (b : Bool)
  /-- The integer is not `Numeral.writable`. -/
  | unwritable
deriving Repr, DecidableEq

/-- The spelling of a truth value in `LiteralError.message` and `Literal.plain?`. -/
def flagText (b : Bool) : String := if b then "True" else "False"

/-- The wording of an error. -/
def LiteralError.message : LiteralError → String
  | .flag b => "Cannot tag a bool: " ++ flagText b
  | .unwritable => Numeral.unwritableMessage

namespace Literal

/-- A payload with the tag of the kind `k`, if it could be written. -/
def label (k : Kind) : Option String → Except LiteralError Tagged
  | some payload => .ok ⟨k.tag, payload⟩
  | none => .error .unwritable

/-- The tagged value that a host's value stands for. Truth values and integers that are too long
to be written have none. -/
def toTagged : Literal → Except LiteralError Tagged
  | .tagged v => .ok v
  | .text s => .ok (.parse s)
  | .int n => label .int (Numeral.write? n)
  | .float x => .ok (.ofFloat x)
  | .flag b => .error (.flag b)

/-- A value as plain text, if it could be written: the text that `labelInt` takes as payload. -/
def plain? : Literal → Option String
  | .tagged v => some v.render
  | .text s => some s
  | .int n => Numeral.write? n
  | .float x => some x.text
  | .flag b => some (flagText b)

/-- A value as diagnostics show it: texts are quoted and tagged values have their parts named
(`Tagged.describe`). -/
def shown? : Literal → Option String
  | .tagged v => some v.describe
  | .text s => some (Text.quote s)
  | l => l.plain?

/-- A value with the tag of `Kind.int` and its `plain?` text as payload, whatever the value is.
-/
def labelInt (l : Literal) : Except LiteralError Tagged := label .int l.plain?

/-- A value with the tag of `Kind.float` and its `shown?` text as payload, whatever the value
is. -/
def labelFloat (l : Literal) : Except LiteralError Tagged := label .float l.shown?

/-- On an integer, `labelInt` is `toTagged`. -/
theorem labelInt_int (n : Int) : labelInt (.int n) = toTagged (.int n) := rfl

/-- On a floating-point number, `labelFloat` is `toTagged`. -/
theorem labelFloat_float (x : Binary64) : labelFloat (.float x) = toTagged (.float x) := rfl

end Literal

end BusScript
