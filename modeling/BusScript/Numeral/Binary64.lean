import BusScript.Numeral.Integer

/-!
# Floating-point numbers

Numbers with 53 significant bits, in exact arithmetic on naturals: `Binary64.ofRatio` rounds a
quotient once, `Binary64.text` writes a number with the fewest digits that read back, and
`Binary64.parse` reads one.
-/

/-! ## Binary floating point with 53 significant bits

A floating-point number is either finite, and then a significand times a
power of two with a sign, or infinite, or not a number. All arithmetic is
exact on naturals, followed by one rounding: to the nearest representable
number, and to an even significand where two are equally near. Reading a
decimal fraction and dividing two numbers are both one use of `ofRatio`.
-/

namespace BusScript

/-- A floating-point number. A finite one is canonical: its significand has
53 bits, or it has fewer and the exponent is the least one. -/
inductive Binary64 where
  /-- No number, as `div` gives it for two infinite numbers. -/
  | nan
  /-- Beyond every finite number of its sign. -/
  | infinite (negative : Bool)
  /-- The number `± significand · 2 ^ exponent`. -/
  | finite (negative : Bool) (significand : Nat) (exponent : Int)
deriving Repr, DecidableEq

namespace Binary64

/-- The number of bits of a full `significand`. -/
def precision : Nat := 53

/-- The `exponent` of the smallest spacing between two numbers. -/
def minExponent : Int := -1074

/-- The `exponent` of the largest spacing between two numbers; beyond it, `ofRatio` gives
`infinite`. -/
def maxExponent : Int := 971

/-- Zero, with the sign `negative`. -/
def zero (negative : Bool) : Binary64 := .finite negative 0 minExponent

/-- The integer nearest to `num / den`, the even one of two. -/
def roundHalfEven (num den : Nat) : Nat :=
  let q := num / den
  let r := num % den
  if den < 2 * r || (2 * r = den && q % 2 = 1) then q + 1 else q

/-- The fraction `num / den / 2 ^ exponent` as numerator and denominator. -/
def scaleDown (num den : Nat) (exponent : Int) : Nat × Nat :=
  (num * Nat.pow 2 (-exponent).toNat, den * Nat.pow 2 exponent.toNat)

/-- The exponent for which the scaled fraction has `precision` bits before the point, or
`minExponent` if that is greater. The bit lengths of `num` and `den` determine it up to one. -/
def spacingExponent (num den : Nat) : Int :=
  let guess : Int := (Nat.log2 num : Int) - Nat.log2 den - (precision - 1 : Nat)
  let (n, d) := scaleDown num den guess
  max minExponent (if n / d < Nat.pow 2 (precision - 1) then guess - 1 else guess)

/-- The number nearest to `± num / den`, by one use of `roundHalfEven`. -/
def ofRatio (negative : Bool) (num den : Nat) : Binary64 :=
  if num = 0 then zero negative
  else
    let e := spacingExponent num den
    let (n, d) := scaleDown num den e
    let m := roundHalfEven n d
    let (m, e) := if m = Nat.pow 2 precision then (Nat.pow 2 (precision - 1), e + 1) else (m, e)
    if maxExponent < e then .infinite negative else .finite negative m e

/-- The number nearest to the integer `n`. -/
def ofInt (n : Int) : Binary64 := ofRatio (n < 0) n.natAbs 1

/-- Whether a number is `zero`, of either sign. -/
def isZero : Binary64 → Bool
  | .finite _ m _ => m = 0
  | _ => false

/-- The quotient of two numbers, for a divisor that is not `zero`. -/
def div : Binary64 → Binary64 → Binary64
  | .finite s m e, .finite t n f =>
    ofRatio (s ^^ t) (m * Nat.pow 2 (e - f).toNat) (n * Nat.pow 2 (f - e).toNat)
  | .finite s _ _, .infinite t => zero (s ^^ t)
  | .infinite s, .finite t _ _ => .infinite (s ^^ t)
  | _, _ => .nan

/-- The integer that a number is, if it is one. Neither `nan` nor `infinite` is. -/
def toInt? : Binary64 → Option Int
  | .finite s m e =>
    let n := m * Nat.pow 2 e.toNat
    let d := Nat.pow 2 (-e).toNat
    if n % d = 0 then some (if s then -((n / d : Nat) : Int) else (n / d : Nat)) else none
  | _ => none

end Binary64

end BusScript

/-! ## Floating-point numbers as text

A number is written with the fewest significant digits that read back as the
same number, and with the nearest such digits. The search is direct: the
reals that round to the number form an interval, and for one digit, two
digits and so on the two neighbours of the number on that decimal grid are
tested for lying in it. Seventeen digits always suffice.

How the digits are laid out is a second, independent decision: plain
positional notation for moderate exponents, with at least one digit on each
side of the point, and scientific notation otherwise.
-/

namespace BusScript.Binary64

/-- A decimal number `digits · 10 ^ exponent`. -/
structure Decimal where
  digits : Nat
  exponent : Int
deriving Repr, DecidableEq

/-- The number of decimal digits of `n`. -/
def decimalLength (n : Nat) : Nat := (Nat.toDigits 10 n).length

/-- The greatest `p` with `10 ^ p ≤ num / den`, for a positive fraction. -/
def decimalExponent (num den : Nat) : Int :=
  if den ≤ num then (decimalLength (num / den) : Int) - 1
  else -(decimalLength ((den - 1) / num) : Int)

/-- The reals that round to a number `significand · 2 ^ exponent`: from `low / den` to `high /
den` around `value / den`. The ends belong to it if it is `closed`, that is, if the significand
is even. -/
structure Interval where
  low : Nat
  value : Nat
  high : Nat
  den : Nat
  closed : Bool

/-- The `Interval` of a number: half the spacing to each neighbour. Below a power of two the
spacing is half of that above it. -/
def roundingInterval (significand : Nat) (exponent : Int) : Interval :=
  let below := if significand = Nat.pow 2 (precision - 1) && minExponent < exponent then 1 else 2
  let up := Nat.pow 2 (exponent - 2).toNat
  { low := (4 * significand - below) * up
    value := 4 * significand * up
    high := (4 * significand + 2) * up
    den := Nat.pow 2 (2 - exponent).toNat
    closed := significand % 2 = 0 }

/-- Whether `num / den` lies in the interval. -/
def Interval.contains (i : Interval) (num den : Nat) : Bool :=
  let low := i.low * den
  let high := i.high * den
  let x := num * i.den
  if i.closed then low ≤ x && x ≤ high else low < x && x < high

/-- The better of the two neighbours of `value` on the grid of `10 ^ exponent`, if one of them
lies in the interval. -/
def Interval.onGrid? (i : Interval) (exponent : Int) : Option Decimal :=
  let up := Nat.pow 10 exponent.toNat
  let down := Nat.pow 10 (-exponent).toNat
  let num := i.value * down
  let den := i.den * up
  let floor := num / den
  let ceil := floor + 1
  let inside (k : Nat) : Bool := i.contains (k * up) down
  let twice := 2 * (num % den)
  let floorFirst := twice < den || (twice = den && floor % 2 = 0)
  let (near, far) := if floorFirst then (floor, ceil) else (ceil, floor)
  if inside near then some ⟨near, exponent⟩
  else if inside far then some ⟨far, exponent⟩
  else none

/-- The fewest digits that read back as a positive finite number: the first grid, from the
leading digit down, on which `Interval.onGrid?` finds something. -/
def shortest (significand : Nat) (exponent : Int) : Decimal :=
  let i := roundingInterval significand exponent
  let top := decimalExponent i.value i.den
  ((List.range 17).findSome? fun (k : Nat) => i.onGrid? (top - (k : Int))).getD ⟨i.value / i.den, 0⟩

/-! ### Layout -/

/-- The decisions of a text format for floating-point numbers. -/
structure Layout where
  /-- The least decimal exponent that is written positionally. -/
  leastPositional : Int
  /-- The least decimal exponent above those that are written positionally. -/
  endPositional : Int
  /-- The least number of digits of a written exponent. -/
  exponentWidth : Nat

/-- The `Layout` that `text` uses: numbers from `1e-4` up to below `1e16` are positional, and an
exponent has two digits or more. -/
def layout : Layout := ⟨-4, 16, 2⟩

/-- Digits of `n` without trailing zeros. -/
def significantDigits (n : Nat) : List Char :=
  ((Nat.toDigits 10 n).reverse.dropWhile (· = '0')).reverse

/-- Positional notation for the digits `ds` whose first stands for `10 ^ top`. -/
def Layout.positional (ds : List Char) (top : Int) : List Char :=
  if top < 0 then
    '0' :: '.' :: List.replicate (-top - 1).toNat '0' ++ ds
  else
    let whole := top.toNat + 1
    let fraction := ds.drop whole
    ds.take whole ++ List.replicate (whole - ds.length) '0' ++ '.' ::
      (if fraction.isEmpty then ['0'] else fraction)

/-- Scientific notation for the digits `ds` whose first stands for `10 ^ top`. -/
def Layout.scientific (l : Layout) (ds : List Char) (top : Int) : List Char :=
  let exponent := Nat.toDigits 10 top.natAbs
  let fraction := ds.drop 1
  ds.take 1 ++ (if fraction.isEmpty then [] else '.' :: fraction) ++
    ['e', if top < 0 then '-' else '+'] ++
    List.replicate (l.exponentWidth - exponent.length) '0' ++ exponent

/-- A positive decimal number, in `Layout.positional` or `Layout.scientific` notation as its
magnitude decides. -/
def Layout.write (l : Layout) (d : Decimal) : List Char :=
  let ds := significantDigits d.digits
  let top := d.exponent + decimalLength d.digits - 1
  if l.leastPositional ≤ top && top < l.endPositional then Layout.positional ds top
  else l.scientific ds top

/-- The text of a floating-point number, from which `parse` reads the same number. -/
def text : Binary64 → String
  | .nan => "nan"
  | .infinite s => if s then "-inf" else "inf"
  | .finite s m e =>
    let unsigned := if m = 0 then ['0', '.', '0'] else layout.write (shortest m e)
    String.ofList (if s then '-' :: unsigned else unsigned)

end BusScript.Binary64

/-! ## Reading floating-point numbers

The accepted texts are a sign, a decimal fraction with an optional exponent,
or one of the words `inf`, `infinity` and `nan` in any case. Underscores may
stand singly between digits, digits may be of any script, and blanks may
stand around the number. The value is rounded once, from the exact fraction.
-/

namespace BusScript.Binary64

open BusScript.Numeral (takeSign signed ofDigits)

/-- Why `parse` does not read `text` as a floating-point number: it has no such form. -/
structure ReadError where
  text : String
deriving Repr, DecidableEq

/-- The wording of an error, with the whole text quoted. -/
def ReadError.message (e : ReadError) : String :=
  "could not convert string to float: " ++ Text.quote e.text

/-- Whether a character is an ASCII decimal digit, by `Numeral.digit?`. -/
def isDigit (c : Char) : Bool := (Numeral.digit? 10 c).isSome

/-- Remove underscores that stand between two digits; any other underscore
makes the text unreadable. `before` is the character in front. -/
def dropUnderscores? (before : Char) : List Char → Option (List Char)
  | [] => if before = '_' then none else some []
  | c :: cs =>
    if c = '_' then
      if isDigit before then dropUnderscores? c cs else none
    else if before = '_' && !isDigit c then none
    else (dropUnderscores? c cs).map (c :: ·)

/-- The exponent part of a decimal fraction, from its `'e'` or `'E'` on. It may be absent. -/
def readExponent? : List Char → Option Int
  | [] => some 0
  | c :: cs =>
    if c = 'e' || c = 'E' then
      let (negative, digits) := takeSign cs
      if !digits.isEmpty && digits.all isDigit then
        some (signed negative (ofDigits 10 (Numeral.runDigits 10 digits)))
      else none
    else none

/-- The number nearest to `± digits · 10 ^ exponent`. Exponents far outside
the range are settled by the number of digits alone. -/
def ofDecimal (negative : Bool) (digits : Nat) (exponent : Int) : Binary64 :=
  let top := exponent + (Nat.toDigits 10 digits).length
  if digits = 0 || top < -330 then zero negative
  else if 330 < top then .infinite negative
  else ofRatio negative (digits * Nat.pow 10 exponent.toNat) (Nat.pow 10 (-exponent).toNat)

/-- Read an unsigned decimal fraction with an optional exponent (`readExponent?`). -/
def readFraction? (negative : Bool) (cs : List Char) : Option Binary64 := do
  let whole := cs.takeWhile isDigit
  let rest := cs.dropWhile isDigit
  let (fraction, rest) := match rest with
    | '.' :: cs => (cs.takeWhile isDigit, cs.dropWhile isDigit)
    | _ => ([], rest)
  if whole.isEmpty && fraction.isEmpty then none
  else
    let exponent ← readExponent? rest
    let digits := ofDigits 10 (Numeral.runDigits 10 (whole ++ fraction))
    some (ofDecimal negative digits (exponent - fraction.length))

/-- Read a word for a number that is not finite: `inf`, `infinity` or `nan` in any case. -/
def readWord? (negative : Bool) (cs : List Char) : Option Binary64 :=
  let word := String.ofList (cs.map Char.toLower)
  if word = "inf" || word = "infinity" then some (.infinite negative)
  else if word = "nan" then some .nan
  else none

/-- Read a floating-point number, by `readFraction?` or else by `readWord?`. Digits and blanks
of other scripts are brought into plain form first. -/
def parse (text : String) : Except ReadError Binary64 :=
  let stripped := Text.trim Text.isAsciiBlank (Text.plainNumeral text)
  let number := do
    let cs ← dropUnderscores? ' ' stripped
    let (negative, body) := takeSign cs
    readFraction? negative body <|> readWord? negative body
  match number with
  | some x => .ok x
  | none => .error ⟨text⟩

end BusScript.Binary64
