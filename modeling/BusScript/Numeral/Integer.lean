import BusScript.Text

/-!
# Integers as text

Every number of a program is kept as text, so reading and writing integers is
part of each operation on them.

* A **decimal literal** is a sign and a run of decimal digits of any script,
  with single underscores between digits and blanks around it.
* A **prefixed literal** has a base mark `0x`, `0o` or `0b` in either case
  after the sign, and may have an underscore after the mark.
* Decimal text is limited to `maxDigits` digits in both directions: a longer
  literal is not read and a longer number is not written. Prefixed literals
  have no limit, so a number that can be read need not be writable.
-/

namespace BusScript.Numeral

/-- The most digits that decimal text may have, in `readDecimal` as in `write?`. -/
def maxDigits : Nat := 4300

/-! ### Writing -/

/-- Decimal text of a number of any length. Use `write?` where the limit applies. -/
def decimal (n : Int) : String :=
  let digits := Nat.toDigits 10 n.natAbs
  String.ofList (if n < 0 then '-' :: digits else digits)

/-- Whether a number has at most `maxDigits` digits. -/
def writable (n : Int) : Bool :=
  n.natAbs < Nat.pow 10 maxDigits

/-- Decimal text of a number, if it is `writable`. -/
def write? (n : Int) : Option String :=
  if writable n then some (decimal n) else none

/-- The text of the fault of a number that is not `writable`. -/
def unwritableMessage : String :=
  "Exceeds the limit (4300 digits) for integer string conversion; " ++
    "use sys.set_int_max_str_digits() to increase the limit"

/-! ### Digit runs -/

/-- The value of a digit of a `base` up to sixteen, in either case. -/
def digit? (base : Nat) (c : Char) : Option Nat :=
  let n := c.toNat
  let value :=
    if '0'.toNat ≤ n && n ≤ '9'.toNat then n - '0'.toNat
    else if 'a'.toNat ≤ n && n ≤ 'f'.toNat then n - 'a'.toNat + 10
    else if 'A'.toNat ≤ n && n ≤ 'F'.toNat then n - 'A'.toNat + 10
    else base
  if value < base then some value else none

/-- Whether underscores stand singly and between digits, in a run that has a
digit. `afterDigit` tells whether a digit stands before the run. -/
def wellSpaced (afterDigit : Bool) : List Char → Bool
  | [] => afterDigit
  | c :: cs => if c = '_' then afterDigit && wellSpaced false cs else wellSpaced true cs

/-- Whether a character belongs to a run of digits of `base`: a digit or an underscore. -/
def inRun (base : Nat) (c : Char) : Bool :=
  c = '_' || (digit? base c).isSome

/-- The digit values of a run, its underscores skipped. -/
def runDigits (base : Nat) (run : List Char) : List Nat :=
  run.filterMap (digit? base)

/-- The number that `digits` denote in `base`, most significant digit first. -/
def ofDigits (base : Nat) (digits : List Nat) : Nat :=
  digits.foldl (fun n d => base * n + d) 0

/-- Whether a minus stands in front, with the characters after the sign. A `'+'` is taken off as
well. -/
def takeSign : List Char → Bool × List Char
  | '-' :: cs => (true, cs)
  | '+' :: cs => (false, cs)
  | cs => (false, cs)

/-- The number `n` with a minus in front if `negative`. -/
def signed (negative : Bool) (n : Nat) : Int :=
  if negative then -(n : Int) else n

/-! ### Literals -/

/-- What a text says as a decimal literal: the result of `readDecimal`. -/
inductive Reading where
  /-- It denotes the number `n`. -/
  | value (n : Int)
  /-- Its run of decimal digits is longer than `maxDigits`. -/
  | tooLong (digits : Nat)
  /-- It is no literal at all. -/
  | malformed
deriving Repr, DecidableEq

/-- Read a decimal literal. The length of the digit run is checked before what stands behind it,
so that a long run gives `Reading.tooLong` also in front of junk. -/
def readDecimal (cs : List Char) : Reading :=
  let (negative, body) := takeSign (cs.dropWhile Text.isAsciiBlank)
  let run := body.takeWhile (inRun 10)
  let digits := runDigits 10 run
  if !wellSpaced false run then .malformed
  else if maxDigits < digits.length then .tooLong digits.length
  else if (body.dropWhile (inRun 10)).all Text.isAsciiBlank then
    .value (signed negative (ofDigits 10 digits))
  else .malformed

/-- The base that the mark letter of a prefixed literal stands for. -/
def markBase? (c : Char) : Option Nat :=
  if c = 'x' || c = 'X' then some 16
  else if c = 'o' || c = 'O' then some 8
  else if c = 'b' || c = 'B' then some 2
  else none

/-- The characters after a base mark, of which the first may be an underscore to be skipped. -/
def afterMark : List Char → List Char
  | '_' :: cs => cs
  | cs => cs

/-- Read a literal with a base mark (`markBase?`). Its digits are not limited by `maxDigits`. -/
def readPrefixed? (cs : List Char) : Option Int :=
  let (negative, body) := takeSign (cs.dropWhile Text.isAsciiBlank)
  match body with
  | '0' :: mark :: rest => do
    let base ← markBase? mark
    let body := afterMark rest
    let run := body.takeWhile (inRun base)
    if wellSpaced false run && (body.dropWhile (inRun base)).all Text.isAsciiBlank then
      some (signed negative (ofDigits base (runDigits base run)))
    else none
  | _ => none

/-- Why a text is not read as an integer by `parse` or `parseDecimal`. -/
inductive Error where
  /-- The `text` is no literal of the `base`; base zero also admits base marks. -/
  | malformed (base : Nat) (text : String)
  /-- The decimal literal has more than `maxDigits` digits. -/
  | tooLong (digits : Nat)
deriving Repr, DecidableEq

/-- The most characters of a quoted text that `Error.message` shows. -/
def shownChars : Nat := 200

/-- The wording of an error. Of a malformed text, `shownChars` characters are shown at most. -/
def Error.message : Error → String
  | .malformed base text =>
    "invalid literal for int() with base " ++ toString base ++ ": " ++
      String.ofList ((Text.quote text).toList.take shownChars)
  | .tooLong digits =>
    "Exceeds the limit (4300 digits) for integer string conversion: value has " ++
      toString digits ++ " digits; use sys.set_int_max_str_digits() to increase the limit"

/-- Read decimal text, without `readPrefixed?` as a second attempt. -/
def parseDecimal (text : String) : Except Error Int :=
  match readDecimal (Text.plainNumeral text) with
  | .value n => .ok n
  | .tooLong digits => .error (.tooLong digits)
  | .malformed => .error (.malformed 10 text)

/-- Read decimal text (`readDecimal`) or, where that fails, prefixed text (`readPrefixed?`).
Blanks of every kind are removed from the ends first, and a literal that is too long is not read
a second time. -/
def parse (text : String) : Except Error Int :=
  let stripped := String.ofList (Text.trim Text.isBlank text.toList)
  let cs := Text.plainNumeral stripped
  match readDecimal cs with
  | .value n => .ok n
  | .tooLong digits => .error (.tooLong digits)
  | .malformed =>
    match readPrefixed? cs with
    | some n => .ok n
    | none => .error (.malformed 0 stripped)

end BusScript.Numeral

/-! ## Failures

An operation that can fail has causes of its own. Besides them, one cause can
come up wherever an integer is turned into text, also inside the wording of
an error: the integer is too long to be written. It is kept apart, because
whoever handles the operation's own causes does not handle this one.
-/

namespace BusScript

/-- A cause `e` of the operation's own, or an integer that is too long to be written. -/
inductive Failure (ε : Type) where
  /-- A cause of the operation's own, which its callers handle. -/
  | error (e : ε)
  /-- An integer has more than `Numeral.maxDigits` digits, and was to be written. -/
  | unwritable
deriving Repr, DecidableEq

namespace Failure

variable {ε δ : Type}

/-- Restate the operation's own cause by `f`; `unwritable` stays what it is. -/
def map (f : ε → δ) : Failure ε → Failure δ
  | .error e => .error (f e)
  | .unwritable => .unwritable

/-- The failure `e`, whose wording shows the integers `shown`: it is `unwritable` as soon as one
of them is not `Numeral.writable`. -/
def showing (shown : List Int) (e : ε) : Failure ε :=
  if shown.all Numeral.writable then .error e else .unwritable

end Failure

/-! ### Results whose failure is restated -/

section

variable {α ε δ : Type}

theorem mapError_ok (f : ε → δ) (v : α) : (Except.ok v).mapError f = .ok v := rfl

theorem mapError_error (f : ε → δ) (e : ε) :
    (Except.error e : Except ε α).mapError f = .error (f e) := rfl

end

end BusScript
