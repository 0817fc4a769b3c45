import BusScript.Bytes
import BusScript.Numeral.Integer
import BusScript.Program
import BusScript.Store.Resolve
import BusScript.Tagged

/-!
# The wire

What goes over the bus, and how it is made: an `Instruction` describes the frames that carry
it, `packField` turns one value into the bytes of a field, and `Instruction.encode` packs the
arguments of an instruction into a `Frame`.
-/

namespace BusScript

/-! ## Instructions and frames

An instruction describes the frames that carry it: the identifier on the bus
and the layout of the data. A frame is one such message, ready to be sent.
-/

/-- The identifier of frames on the bus. -/
inductive BusId where
  /-- A numeric identifier. -/
  | number (n : Int)
  /-- An identifier that was left blank; `BusId.render?` shows it as an empty list. -/
  | blank
deriving Repr, DecidableEq

/-- The text of an identifier, if it is `Numeral.writable`. -/
def BusId.render? : BusId → Option String
  | .number n => Numeral.write? n
  | .blank => some "[]"

/-- An instruction of the hardware. The order and the types of its `params` are the layout of
its frames. -/
structure Instruction where
  name : String
  canId : BusId
  params : List Param := []
  note : String := ""
deriving Repr, DecidableEq

/-- One encoded instruction: what `Instruction.encode` gives, ready to be sent. -/
structure Frame where
  canId : BusId
  data : Bytes
  name : String := ""
deriving Repr, DecidableEq

namespace Frame

/-- The `data` in hex, with a space between two bytes. -/
def hex (f : Frame) : String := Bytes.spacedHex f.data

/-- The text form of a frame, if its `canId` can be written. A frame without a `name` is shown
as `frame`. -/
def render? (f : Frame) : Option String :=
  f.canId.render?.map fun id =>
    (if f.name = "" then "frame" else f.name) ++ " id=" ++ id ++ " [" ++ f.hex ++ "]"

end Frame

/-! ## Fields of a frame

A field holds an integer in one, two or four bytes, most significant byte
first. Unsigned types take what fits without a sign. Signed types take the
signed *and* the unsigned range of their width; negative numbers are stored in
two's complement.
-/

/-- The type of a field, which decides its `width` and the range of integers from `low` to
`high`. -/
inductive FieldType where
  | byte
  | u8
  | i8
  | u16
  | i16
  | u32
  | i32
deriving Repr, DecidableEq

namespace FieldType

/-- All field types, for the search by name in `ofName?`. -/
def all : List FieldType := [.byte, .u8, .i8, .u16, .i16, .u32, .i32]

/-- The name of a type, as a `Param` declares it. -/
def name : FieldType → String
  | .byte => "byte"
  | .u8 => "u8"
  | .i8 => "i8"
  | .u16 => "u16"
  | .i16 => "i16"
  | .u32 => "u32"
  | .i32 => "i32"

/-- The type of the given `name`, if there is one. -/
def ofName? (name : String) : Option FieldType := all.find? (·.name = name)

/-- The number of bytes that `encode` gives. -/
def width : FieldType → Nat
  | .byte | .u8 | .i8 => 1
  | .u16 | .i16 => 2
  | .u32 | .i32 => 4

/-- Whether negative numbers fit. If so, the unsigned range of the same `width` fits as well. -/
def signed : FieldType → Bool
  | .i8 | .i16 | .i32 => true
  | _ => false

/-- The number of bits of a field, eight for each byte of its `width`. -/
def bits (t : FieldType) : Nat := 8 * t.width

/-- The number of different contents of a field, `2 ^ bits`. -/
def modulus (t : FieldType) : Nat := Nat.pow 2 t.bits

/-- The least number that fits: the half of `modulus`, negated, if the type is `signed`. -/
def low (t : FieldType) : Int := if t.signed then -((t.modulus / 2 : Nat) : Int) else 0

/-- The greatest number that fits, one less than `modulus` also for a `signed` type. -/
def high (t : FieldType) : Int := (t.modulus : Int) - 1

/-- The bytes of a number between `low` and `high`; a negative one in two's complement. -/
def encode (t : FieldType) (n : Int) : Bytes :=
  Bytes.ofNat t.width (if n < 0 then n + t.modulus else n).toNat

end FieldType

/-- Why `packField` does not pack a value into a field. -/
inductive PackError where
  /-- There is no field type of the name `type`. -/
  | unsupported (type : String)
  /-- The value `v` is no integer (`Tagged.fieldInt?`). -/
  | invalid (type : String) (v : Tagged)
  /-- The integer `n` does not fit the type. -/
  | outOfRange (type : String) (n : Int)
deriving Repr, DecidableEq

/-- The wording of an error. That of `outOfRange` shows an integer, which has to be
`Numeral.writable`. -/
def PackError.message : PackError → String
  | .unsupported type => "Unsupported arg type: " ++ type
  | .invalid type v => "Invalid " ++ type ++ " value: " ++ v.render
  | .outOfRange type n => "Value " ++ Numeral.decimal n ++ " out of range for " ++ type

/-- The integer of a value that may go into a field: values with the tags of `Kind.str` and
`Kind.float` may not. -/
def Tagged.fieldInt? (v : Tagged) : Option Int :=
  if v.tag = Kind.float.tag || v.tag = Kind.str.tag then none else v.toInt.toOption

/-- Pack the value `v` into a field of the type named `type`. The name of the type is looked at
first, then the value, then the range. -/
def packField (type : String) (v : Tagged) : Except (Failure PackError) Bytes :=
  match FieldType.ofName? type with
  | none => .error (.error (.unsupported type))
  | some t =>
    match v.fieldInt? with
    | none => .error (.error (.invalid type v))
    | some n =>
      if t.low ≤ n ∧ n ≤ t.high then .ok (t.encode n)
      else .error (.showing [n] (.outOfRange type n))

theorem Tagged.toInt_of_fieldInt? {v : Tagged} {n : Int} (h : v.fieldInt? = some n) :
    v.toInt = .ok n := by
  unfold fieldInt? at h
  split at h
  · cases h
  · cases hn : v.toInt with
    | error e =>
      rw [hn] at h
      cases h
    | ok m =>
      rw [hn] at h
      cases h
      rfl

/-- A value is packed exactly if it is an integer between `low` and `high` of a type that there
is, and then by `FieldType.encode`. -/
theorem packField_eq_ok_iff {type : String} {v : Tagged} {bs : Bytes} :
    packField type v = .ok bs ↔
      ∃ t n, FieldType.ofName? type = some t ∧ v.fieldInt? = some n ∧
        (t.low ≤ n ∧ n ≤ t.high) ∧ t.encode n = bs := by
  unfold packField
  cases FieldType.ofName? type with
  | none => simp
  | some t =>
    cases v.fieldInt? with
    | none => simp
    | some n =>
      by_cases hrange : t.low ≤ n ∧ n ≤ t.high
      · simp [hrange]
      · simp [hrange]

/-! ## Encoding an instruction

The arguments of an instruction are packed in the order of their declaration.
An argument that is bound takes the value that its name resolves to among the
actual arguments, and never the default; an argument that is not bound takes
the default, if it has one. The first argument that cannot be packed decides
the error; the size of the frame is checked last.
-/

/-- Why an instruction is not encoded by `Instruction.encode`. -/
inductive EncodeError where
  /-- The value of `arg` refers to itself, along the names of `cycle`. -/
  | cyclic (arg : String) (cycle : Cycle)
  /-- The value `v` of `arg` refers to a name that is not bound. -/
  | dangling (arg : String) (v : Tagged)
  /-- The argument is not bound and has no default. -/
  | missing (arg : String)
  /-- The value of `arg` does not fit its field, for the reason `e`. -/
  | field (instruction arg : String) (e : PackError)
  /-- The frame has `actual` bytes, and not the number that is required. -/
  | size (instruction : String) (actual : Nat) (expected : Int)
deriving Repr, DecidableEq

/-- The wording of an error. Only `field` and `size` name the instruction. -/
def EncodeError.message : EncodeError → String
  | .cyclic arg cycle => "Arg " ++ arg ++ ": " ++ cycle.message
  | .dangling arg v => "Arg " ++ arg ++ " refers to unbound " ++ v.render
  | .missing arg => "Require arg: " ++ arg
  | .field instruction arg e => instruction ++ "." ++ arg ++ ": " ++ e.message
  | .size instruction actual expected =>
    instruction ++ ": frame is " ++ toString actual ++ " bytes, expected " ++
      Numeral.decimal expected

/-- The number of data bytes of a classic frame, which an engine requires if nothing else is
said. -/
def defaultFrameSize : Int := 8

/-- The value of a formal argument: what its name resolves to among the `actuals` if it is bound
there, and the `default` otherwise. A bound argument never takes the default. -/
def Param.value (p : Param) (actuals : Store) : Except EncodeError Tagged :=
  match actuals.get? p.name with
  | some bound =>
    match Scopes.resolve [actuals] p.name with
    | .error cycle => .error (.cyclic p.name cycle)
    | .ok none => .error (.dangling p.name bound)
    | .ok (some v) => .ok v
  | none => if p.default = "" then .error (.missing p.name) else .ok (.parse p.default)

/-- The bytes of one argument of an instruction: `Param.value`, packed by `packField`. -/
def Param.encode (instruction : String) (actuals : Store) (p : Param) :
    Except (Failure EncodeError) Bytes :=
  match p.value actuals with
  | .error e => .error (.error e)
  | .ok v =>
    match packField p.type v with
    | .error e => .error (e.map (.field instruction p.name))
    | .ok bs => .ok bs

/-- The bytes of the arguments of an instruction, one after the other. The first argument that
cannot be packed decides the error. -/
def encodeParams (instruction : String) (actuals : Store) :
    List Param → Except (Failure EncodeError) Bytes
  | [] => .ok []
  | p :: ps =>
    match p.encode instruction actuals with
    | .error e => .error e
    | .ok bs =>
      match encodeParams instruction actuals ps with
      | .error e => .error e
      | .ok rest => .ok (bs ++ rest)

/-- The frame of an instruction with the arguments `actuals`. Its size is checked last, and
without a `frameSize` any size will do. -/
def Instruction.encode (i : Instruction) (frameSize : Option Int) (actuals : Store) :
    Except (Failure EncodeError) Frame :=
  match encodeParams i.name actuals i.params with
  | .error e => .error e
  | .ok data =>
    match frameSize with
    | none => .ok ⟨i.canId, data, i.name⟩
    | some size =>
      if (data.length : Int) = size then .ok ⟨i.canId, data, i.name⟩
      else .error (.showing [size] (.size i.name data.length size))

theorem Param.encode_eq_ok_iff {instruction : String} {actuals : Store} {p : Param} {bs : Bytes} :
    p.encode instruction actuals = .ok bs ↔
      ∃ v, p.value actuals = .ok v ∧ packField p.type v = .ok bs := by
  unfold Param.encode
  cases p.value actuals with
  | error e => simp
  | ok v => cases hpack : packField p.type v <;> simp [hpack]

/-- Arguments are encoded exactly if the first one and the rest are, and their bytes are joined.
-/
theorem encodeParams_cons_eq_ok_iff {instruction : String} {actuals : Store} {p : Param}
    {ps : List Param} {data : Bytes} :
    encodeParams instruction actuals (p :: ps) = .ok data ↔
      ∃ bs rest, p.encode instruction actuals = .ok bs ∧
        encodeParams instruction actuals ps = .ok rest ∧ bs ++ rest = data := by
  rw [encodeParams]
  cases p.encode instruction actuals with
  | error e => simp
  | ok bs => cases encodeParams instruction actuals ps <;> simp

/-- A frame carries the identifier and the name of its instruction, the bytes that
`encodeParams` gives, and as many of them as the `frameSize` requires. -/
theorem Instruction.encode_eq_ok_iff {i : Instruction} {frameSize : Option Int} {actuals : Store}
    {frame : Frame} :
    i.encode frameSize actuals = .ok frame ↔
      encodeParams i.name actuals i.params = .ok frame.data ∧ frame.canId = i.canId ∧
        frame.name = i.name ∧ ∀ size, frameSize = some size → (frame.data.length : Int) = size := by
  obtain ⟨canId, data, name⟩ := frame
  unfold Instruction.encode
  cases encodeParams i.name actuals i.params with
  | error f => simp
  | ok bs =>
      cases frameSize with
      | none =>
          simp only [Except.ok.injEq, Frame.mk.injEq, reduceCtorEq, false_implies, implies_true,
            and_true]
          grind
      | some size =>
          by_cases hsize : (bs.length : Int) = size
          · simp only [if_pos hsize, Except.ok.injEq, Frame.mk.injEq, Option.some.injEq,
              forall_eq']
            grind
          · simp only [if_neg hsize, reduceCtorEq, Except.ok.injEq, Option.some.injEq,
              forall_eq', false_iff]
            grind

end BusScript
