import BusScript.Proofs.BigEndian
import BusScript.Wire
import Mathlib.Data.List.Forall2

/-!
# Decoding a frame

The data of a frame has no separators: its fields are found again by cutting it
at the widths of the declaration. A piece read as an unsigned number is the
integer of its argument modulo the number of contents of the field; read in
two's complement it is the integer itself, if that lies in the signed range.
Hence the data tells two lists of actual arguments apart exactly if some field
does.
-/

namespace BusScript

/-! ### Cutting -/

namespace Bytes

/-- Cut bytes into pieces of the given widths. Nothing may be missing, and nothing may be left
over. -/
def cut? : List Nat → Bytes → Option (List Bytes)
  | [], [] => some []
  | [], _ :: _ => none
  | w :: ws, bs =>
    if bs.length < w then none else (cut? ws (bs.drop w)).map (bs.take w :: ·)

/-- A `piece` of the first width is what is cut off first. -/
theorem cut?_append {w : Nat} {piece : Bytes} (hw : piece.length = w) (ws : List Nat)
    (rest : Bytes) : cut? (w :: ws) (piece ++ rest) = (cut? ws rest).map (piece :: ·) := by
  subst hw
  have hlong : ¬ (piece ++ rest).length < piece.length := by simp
  rw [cut?, if_neg hlong, List.drop_left, List.take_left]

/-- The pieces of `cut?` are the bytes, in their order. -/
theorem flatten_of_cut? {ws : List Nat} {bs : Bytes} {pieces : List Bytes}
    (h : cut? ws bs = some pieces) : pieces.flatten = bs := by
  induction ws generalizing bs pieces with
  | nil =>
      cases bs with
      | nil =>
          cases h
          rfl
      | cons b bs => cases h
  | cons w ws ih =>
      rw [cut?] at h
      split at h
      · cases h
      · obtain ⟨tail, htail, rfl⟩ := Option.map_eq_some_iff.1 h
        rw [List.flatten_cons, ih htail, List.take_append_drop]

/-- Bytes that `cut?` cuts at the same widths are equal exactly if their pieces are. -/
theorem eq_iff_of_cut? {ws : List Nat} {bs cs : Bytes} {pieces pieces' : List Bytes}
    (h : cut? ws bs = some pieces) (h' : cut? ws cs = some pieces') :
    bs = cs ↔ pieces = pieces' := by
  constructor
  · intro heq
    rw [heq, h'] at h
    exact (Option.some.inj h).symm
  · intro heq
    rw [← flatten_of_cut? h, heq, flatten_of_cut? h']

/-- The number that bytes denote in two's complement, most significant byte first: `toNat` with
the sign of its highest bit. -/
def toInt (bs : Bytes) : Int := (BitVec.ofNat (8 * bs.length) (toNat bs)).toInt

end Bytes

/-! ### Reading one field -/

namespace FieldType

/-- A number of the signed range of `t.bits` is read back by `toInt`. -/
theorem toInt_of_represents {t : FieldType} {n : Int} {bs : Bytes} (h : t.Represents n bs)
    (hlow : -2 ^ (t.bits - 1) ≤ n) (hhigh : n < 2 ^ (t.bits - 1)) : Bytes.toInt bs = n := by
  have hbits : 8 * bs.length = t.bits := by rw [h.length, bits]
  have hhalf : (t.modulus : Int) = 2 ^ (t.bits - 1) * 2 := by cases t <;> decide
  calc Bytes.toInt bs = (n % t.modulus).bmod t.modulus := by
        rw [Bytes.toInt, BitVec.toInt_ofNat', hbits, h.toNat]
        rfl
    _ = n.bmod t.modulus := Int.emod_bmod ..
    _ = n := Int.bmod_eq_of_le_mul_two (by omega) (by omega)

/-- A field tells two numbers apart exactly if they differ modulo the `modulus` of its type. -/
theorem Represents.eq_iff {t : FieldType} {n n' : Int} {bs cs : Bytes} (h : t.Represents n bs)
    (h' : t.Represents n' cs) : bs = cs ↔ n % t.modulus = n' % t.modulus := by
  rw [← h.toNat, ← h'.toNat, Int.natCast_inj]
  exact ⟨congrArg Bytes.toNat, Bytes.eq_of_toNat_eq (h.length.trans h'.length.symm)⟩

end FieldType

namespace Param

/-- The integer that an argument resolves to among the `actuals`. -/
def integer? (actuals : Store) (p : Param) : Option Int :=
  (p.value actuals).toOption.bind (·.toInt.toOption)

/-- The number of bytes of an argument, and zero for an unknown `type`. -/
def width (p : Param) : Nat := (FieldType.ofName? p.type).elim 0 FieldType.width

/-- Bytes read back as the integer of an argument: without a sign up to a multiple of the
`modulus`, and in two's complement exactly, if the integer lies in the signed range. -/
inductive ReadsBack (actuals : Store) (p : Param) (bs : Bytes) : Prop
  | intro {t : FieldType} {n : Int} (type : FieldType.ofName? p.type = some t)
      (integer : p.integer? actuals = some n) (represents : t.Represents n bs)
      (signed : -2 ^ (t.bits - 1) ≤ n → n < 2 ^ (t.bits - 1) → Bytes.toInt bs = n)

/-- The integers of an argument agree modulo the `modulus` of its field. -/
def Agrees (actuals actuals' : Store) (p : Param) : Prop :=
  ∃ t n n', FieldType.ofName? p.type = some t ∧ p.integer? actuals = some n ∧
    p.integer? actuals' = some n' ∧ n % t.modulus = n' % t.modulus

/-- What `Param.encode` gives reads back as the integer of the argument. -/
theorem readsBack_of_encode {instruction : String} {actuals : Store} {p : Param} {bs : Bytes}
    (h : p.encode instruction actuals = .ok bs) : p.ReadsBack actuals bs := by
  obtain ⟨v, hvalue, hpacked⟩ := encode_eq_ok_iff.1 h
  obtain ⟨t, n, htype, hint, ⟨hlow, -⟩, rfl⟩ := packField_eq_ok_iff.1 hpacked
  have hinteger : p.integer? actuals = some n := by
    rw [integer?, hvalue]
    simp [Except.toOption, Tagged.toInt_of_fieldInt? hint]
  have hrep := FieldType.represents_encode hlow
  exact .intro htype hinteger hrep (FieldType.toInt_of_represents hrep)

theorem ReadsBack.length {actuals : Store} {p : Param} {bs : Bytes}
    (h : p.ReadsBack actuals bs) : bs.length = p.width := by
  obtain ⟨htype, -, hrep, -⟩ := h
  rw [width, htype, Option.elim_some, hrep.length]

/-- The bytes of an argument are the same exactly if its integers agree (`Agrees`). -/
theorem ReadsBack.eq_iff {actuals actuals' : Store} {p : Param} {bs cs : Bytes}
    (h : p.ReadsBack actuals bs) (h' : p.ReadsBack actuals' cs) :
    bs = cs ↔ p.Agrees actuals actuals' := by
  obtain ⟨htype, hint, hrep, -⟩ := h
  obtain ⟨htype', hint', hrep', -⟩ := h'
  cases htype.symm.trans htype'
  rw [hrep.eq_iff hrep']
  constructor
  · intro heq
    exact ⟨_, _, _, htype, hint, hint', heq⟩
  · rintro ⟨t, n, n', ht, hn, hn', heq⟩
    cases htype.symm.trans ht
    cases hint.symm.trans hn
    cases hint'.symm.trans hn'
    exact heq

end Param

/-! ### Reading a frame -/

/-- Cutting at the declared widths finds for each argument bytes that read back as its integer
(`ReadsBack`). -/
theorem cut?_of_encodeParams {instruction : String} {actuals : Store} {params : List Param}
    {data : Bytes} (h : encodeParams instruction actuals params = .ok data) :
    ∃ pieces, Bytes.cut? (params.map Param.width) data = some pieces ∧
      List.Forall₂ (Param.ReadsBack actuals) params pieces := by
  induction params generalizing data with
  | nil =>
      cases h
      exact ⟨[], rfl, .nil⟩
  | cons p params ih =>
      obtain ⟨piece, rest, hpiece, hrest, rfl⟩ := encodeParams_cons_eq_ok_iff.1 h
      have hread := Param.readsBack_of_encode hpiece
      obtain ⟨pieces, hcut, hreads⟩ := ih hrest
      refine ⟨piece :: pieces, ?_, .cons hread hreads⟩
      rw [List.map_cons, Bytes.cut?_append hread.length, hcut, Option.map_some]

theorem pieces_eq_iff {actuals actuals' : Store} {params : List Param}
    {pieces pieces' : List Bytes} (h : List.Forall₂ (Param.ReadsBack actuals) params pieces)
    (h' : List.Forall₂ (Param.ReadsBack actuals') params pieces') :
    pieces = pieces' ↔ ∀ p ∈ params, p.Agrees actuals actuals' := by
  induction h generalizing pieces' with
  | nil =>
      cases h'
      simp
  | cons hread hreads ih =>
      cases h' with
      | cons hread' hreads' =>
          rw [List.cons.injEq, hread.eq_iff hread', ih hreads', List.forall_mem_cons]

/-- A frame is cut at the declared widths into bytes that read back as the integers of its
arguments (`Param.ReadsBack`), and two frames of an instruction carry the same data exactly if
those integers agree field by field (`Param.Agrees`). -/
theorem Instruction.encode_readsBack {i : Instruction} {frameSize : Option Int} {actuals : Store}
    {frame : Frame} (h : i.encode frameSize actuals = .ok frame) :
    (∃ pieces, Bytes.cut? (i.params.map Param.width) frame.data = some pieces ∧
      List.Forall₂ (Param.ReadsBack actuals) i.params pieces) ∧
    ∀ (frameSize' : Option Int) (actuals' : Store) (frame' : Frame),
      i.encode frameSize' actuals' = .ok frame' →
        (frame.data = frame'.data ↔ ∀ p ∈ i.params, p.Agrees actuals actuals') := by
  obtain ⟨pieces, hcut, hreads⟩ := cut?_of_encodeParams (encode_eq_ok_iff.1 h).1
  refine ⟨⟨pieces, hcut, hreads⟩, ?_⟩
  intro frameSize' actuals' frame' h'
  obtain ⟨pieces', hcut', hreads'⟩ := cut?_of_encodeParams (encode_eq_ok_iff.1 h').1
  rw [Bytes.eq_iff_of_cut? hcut hcut', pieces_eq_iff hreads hreads']

/-- An `angle` of two bytes, a signed `trim`, and a `mode` with a default. -/
def Instruction.steering : Instruction where
  name := "Steer"
  canId := .number 0x120
  params := [⟨"angle", "u16", "", ""⟩, ⟨"trim", "i8", "", ""⟩, ⟨"mode", "byte", "", "int:7"⟩]

-- the trims differ by the number of contents of the field
theorem Instruction.encode_readsBack_steering :
    let actuals : Store :=
      .ofList [("angle", ⟨"var", "base"⟩), ("base", ⟨"int", "300"⟩), ("trim", ⟨"int", "-1"⟩)]
    let actuals' : Store := .ofList [("trim", ⟨"int", "255"⟩), ("angle", ⟨"int", "0x12C"⟩)]
    let frame : Frame := ⟨.number 0x120, [1, 44, 255, 7], "Steer"⟩
    steering.encode (some 4) actuals = .ok frame ∧
    steering.encode none actuals' = .ok frame ∧
    List.Forall₂ (Param.ReadsBack actuals) steering.params [[1, 44], [255], [7]] ∧
    ∀ p ∈ steering.params, p.Agrees actuals actuals' := by
  intro actuals actuals' frame
  have h : steering.encode (some 4) actuals = .ok frame := by decide +kernel
  have h' : steering.encode none actuals' = .ok frame := by decide +kernel
  obtain ⟨⟨pieces, hcut, hreads⟩, hiff⟩ := encode_readsBack h
  have hpieces : pieces = [[1, 44], [255], [7]] := by
    rw [← Option.some.injEq, ← hcut]
    decide +kernel
  exact ⟨h, h', hpieces ▸ hreads, (hiff none actuals' frame h').1 rfl⟩

end BusScript
