import BusScript.Numeral.Integer
import BusScript.Text

/-!
# Bytes

Byte strings are lists. They have a hex text, with or without blanks between
the bytes, and a numeric value with the most significant byte first.
-/

namespace BusScript

/-- A string of bytes, as a `Frame` carries it. -/
abbrev Bytes := List UInt8

namespace Bytes

/-! ### Hex text -/

/-- The two hex digits of the byte `b`, in lower case. -/
def hexPair (b : UInt8) : List Char :=
  [Nat.digitChar (b.toNat / 16), Nat.digitChar (b.toNat % 16)]

/-- Hex text without blanks; `spacedHex` has them. -/
def hex (bs : Bytes) : String :=
  String.ofList (bs.flatMap hexPair)

/-- Hex text with a space between two bytes. -/
def spacedHex (bs : Bytes) : String :=
  " ".intercalate (bs.map fun b => String.ofList (hexPair b))

/-- Why a text is not read as hex bytes: the character at `position` is not
the hex digit that has to stand there. -/
structure HexError where
  position : Nat
deriving Repr, DecidableEq

/-- The wording of an error, with the `position` counted from zero. -/
def HexError.message (e : HexError) : String :=
  "non-hexadecimal number found in fromhex() arg at position " ++ toString e.position

/-- Read pairs of hex digits with blanks between the pairs. `start` is the
position of the first character. -/
def ofHexChars (start : Nat) : List Char → Except HexError Bytes
  | [] => .ok []
  | [c] =>
    if Text.isAsciiBlank c then .ok []
    else match Numeral.digit? 16 c with
      | none => .error ⟨start⟩
      | some _ => .error ⟨start + 1⟩
  | c :: d :: rest =>
    if Text.isAsciiBlank c then ofHexChars (start + 1) (d :: rest)
    else match Numeral.digit? 16 c, Numeral.digit? 16 d with
      | none, _ => .error ⟨start⟩
      | some _, none => .error ⟨start + 1⟩
      | some hi, some lo => (ofHexChars (start + 2) rest).map (UInt8.ofNat (16 * hi + lo) :: ·)

/-- Read hex text by `ofHexChars`. A character outside ASCII is reported before anything else.
-/
def ofHex (text : String) : Except HexError Bytes :=
  let cs := text.toList
  match cs.findIdx? (fun c => 0x80 ≤ c.toNat) with
  | some position => .error ⟨position⟩
  | none => ofHexChars 0 cs

/-! ### Numeric value -/

/-- The number that bytes denote, most significant byte first: the value of a field, and of a
hex literal. -/
def toNat (bs : Bytes) : Nat :=
  bs.foldl (fun n b => 256 * n + b.toNat) 0

/-- The lowest `width` bytes of a number, most significant byte first. On numbers below `256 ^
width` it is inverse to `toNat`. -/
def ofNat : (width : Nat) → Nat → Bytes
  | 0, _ => []
  | width + 1, n => UInt8.ofNat (n / Nat.pow 256 width) :: ofNat width n

@[simp] theorem length_ofNat (width n : Nat) : (ofNat width n).length = width := by
  induction width with
  | zero => rfl
  | succ width ih => simp [ofNat, ih]

end Bytes

end BusScript
