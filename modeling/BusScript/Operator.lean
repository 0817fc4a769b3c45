import BusScript.Numeral.Integer
import BusScript.Tagged

/-!
# Operators

The binary operators of assignments work on payloads:

* `+` adds two integers and joins the payloads of any other two values to a
  text;
* `-` and `*` take integers only;
* `/` takes floating-point numbers only, and yet its result is tagged as an
  integer: the digits of an integral quotient, or the text of any other.
-/

namespace BusScript

/-- A binary operator, as it stands in an assignment. -/
inductive Operator where
  | add
  | sub
  | mul
  | div
deriving Repr, DecidableEq

namespace Operator

/-- The sign of an operator in a program and in messages. -/
def sign : Operator → String
  | .add => "+"
  | .sub => "-"
  | .mul => "*"
  | .div => "/"

/-- All operators, for the search by sign in `ofSign?`. -/
def all : List Operator := [.add, .sub, .mul, .div]

/-- The operator whose `Operator.sign` is `sign`, if there is one. -/
def ofSign? (sign : String) : Option Operator := all.find? (·.sign = sign)

end Operator

/-- Why `Operator.apply` or `Operator.applySign` has no result. -/
inductive OperatorError where
  /-- There is no operator with this `sign`. -/
  | unsupported (sign : String)
  /-- An operand has not the tag of `Kind.int`. -/
  | needsInts (op : Operator) (x y : Tagged)
  /-- An operand has the tag of `Kind.int`, and `Numeral.parse` does not read it. -/
  | invalidInts (op : Operator) (x y : Tagged)
  /-- An operand has not the tag of `Kind.float`. -/
  | needsFloats (x y : Tagged)
  /-- An operand has the tag of `Kind.float`, and `Binary64.parse` does not read it. -/
  | invalidFloats (x y : Tagged)
  /-- The divisor is zero. -/
  | divisionByZero (x y : Tagged)
deriving Repr, DecidableEq

namespace OperatorError

/-- An operation as it was written, each operand as `Tagged.render` has it. -/
def showOperation (op : Operator) (x y : Tagged) : String :=
  x.render ++ " " ++ op.sign ++ " " ++ y.render

/-- The wording of an error. Apart from `unsupported`, it shows both operands (`showOperation`).
-/
def message : OperatorError → String
  | .unsupported sign => "Unsupported operator: '" ++ sign ++ "'"
  | .needsInts op x y =>
    "Operator '" ++ op.sign ++ "' requires int operands: " ++ showOperation op x y
  | .invalidInts op x y => "Invalid int operand: " ++ showOperation op x y
  | .needsFloats x y => "Operator '/' requires float operands: " ++ showOperation .div x y
  | .invalidFloats x y => "Invalid float operand: " ++ showOperation .div x y
  | .divisionByZero x y => "Division by zero: " ++ showOperation .div x y

end OperatorError

namespace Operator

/-- Whether both operands carry the tag of the kind `k`. -/
def bothTagged (k : Kind) (x y : Tagged) : Bool := x.tag = k.tag && y.tag = k.tag

/-- The integers of two operands, which need the tag of `Kind.int` and a payload that is a
numeral. -/
def ints (op : Operator) (x y : Tagged) : Except OperatorError (Int × Int) :=
  if bothTagged .int x y then
    match Numeral.parse x.payload, Numeral.parse y.payload with
    | .ok a, .ok b => .ok (a, b)
    | _, _ => .error (.invalidInts op x y)
  else .error (.needsInts op x y)

/-- The value of an integral result, which has to be `Numeral.writable`. -/
def ofResult (n : Int) : Except (Failure OperatorError) Tagged :=
  match Tagged.ofInt? n with
  | some v => .ok v
  | none => .error .unwritable

/-- Apply the integer operation `f` to the `ints` of two operands. -/
def onInts (op : Operator) (f : Int → Int → Int) (x y : Tagged) :
    Except (Failure OperatorError) Tagged :=
  match op.ints x y with
  | .error e => .error (.error e)
  | .ok (a, b) => ofResult (f a b)

/-- The text of a quotient: that of an integer if it is one, and `Binary64.text` otherwise. -/
def quotientText (q : Binary64) : String :=
  match q.toInt? with
  | some n => Numeral.decimal n
  | none => q.text

/-- Divide two values that have the tag of `Kind.float`. The quotient has the tag of `Kind.int`,
whatever its text. -/
def divide (x y : Tagged) : Except OperatorError Tagged :=
  if bothTagged .float x y then
    match x.toFloat, y.toFloat with
    | .ok a, .ok b =>
      if b.isZero then .error (.divisionByZero x y)
      else .ok ⟨Kind.int.tag, quotientText (a.div b)⟩
    | _, _ => .error (.invalidFloats x y)
  else .error (.needsFloats x y)

/-- The result of an operator. Only `add` takes operands that are not both tagged as integers,
and joins their payloads then. -/
def apply (op : Operator) (x y : Tagged) : Except (Failure OperatorError) Tagged :=
  match op with
  | .add =>
    if bothTagged .int x y then onInts .add (· + ·) x y
    else .ok (.ofText (x.payload ++ y.payload))
  | .sub => onInts .sub (· - ·) x y
  | .mul => onInts .mul (· * ·) x y
  | .div => (divide x y).mapError .error

/-- The result of the operator with the given `sign`. -/
def applySign (sign : String) (x y : Tagged) : Except (Failure OperatorError) Tagged :=
  match ofSign? sign with
  | none => .error (.error (.unsupported sign))
  | some op => op.apply x y

/-! ### What operators yield -/

theorem isVar_of_onInts {op : Operator} {f : Int → Int → Int} {x y v : Tagged}
    (h : op.onInts f x y = .ok v) : v.isVar = false := by
  unfold onInts ofResult Tagged.ofInt? at h
  cases hints : op.ints x y with
  | error e => rw [hints] at h; cases h
  | ok operands =>
    rw [hints] at h
    dsimp only at h
    cases hwrite : Numeral.write? (f operands.1 operands.2) with
    | none => rw [hwrite] at h; cases h
    | some text => rw [hwrite] at h; cases h; rfl

/-- The result of `Operator.apply` is never a reference. -/
theorem isVar_of_apply {op : Operator} {x y v : Tagged} (h : op.apply x y = .ok v) :
    v.isVar = false := by
  cases op with
  | add =>
    unfold apply at h
    dsimp only at h
    split at h
    · exact isVar_of_onInts h
    · cases h; rfl
  | sub => exact isVar_of_onInts h
  | mul => exact isVar_of_onInts h
  | div =>
    unfold apply divide at h
    dsimp only at h
    split at h
    · split at h
      · split at h
        · cases h
        · cases h; rfl
      · cases h
    · cases h

theorem isVar_of_applySign {sign : String} {x y v : Tagged}
    (h : applySign sign x y = .ok v) : v.isVar = false := by
  unfold applySign at h
  cases hop : ofSign? sign with
  | none => rw [hop] at h; cases h
  | some op => rw [hop] at h; exact isVar_of_apply h

end Operator

end BusScript
