import BusScript.Proofs.Acceptance
import BusScript.Proofs.BigEndian
import Mathlib.Data.Nat.Digits.Lemmas

/-!
# Frames as hex values

The text of a frame's data is itself the payload of a hex value. Such a value reads
back as the data (`Bytes.ofHex_spacedHex`), and its integer has the bytes as its
digits of base 256 (`Bytes.toNat_eq_ofDigits`). A field takes it whenever all bytes
but the last ones are zero (`Bytes.toNat_lt_iff`), and then holds the last bytes
(`Bytes.ofNat_toNat`), or all of them behind zeros (`Bytes.ofNat_toNat_of_le`).

No such integer is negative, so signed types treat it as unsigned ones do.
-/

namespace BusScript

namespace Bytes

/-! ### Text -/

/-- What `digitChar` writes, `digit?` reads. -/
theorem digit?_digitChar {n : Nat} (h : n < 16) :
    Numeral.digit? 16 (Nat.digitChar n) = some n := by
  revert n
  decide

theorem isAsciiBlank_digitChar {n : Nat} (h : n < 16) :
    Text.isAsciiBlank (Nat.digitChar n) = false := by
  revert n
  decide

theorem toNat_digitChar_lt {n : Nat} (h : n < 16) : (Nat.digitChar n).toNat < 0x80 := by
  revert n
  decide

/-- The two digits of `hexPair` are read as their byte. -/
theorem ofHexChars_hexPair (start : Nat) (b : UInt8) (cs : List Char) :
    ofHexChars start (hexPair b ++ cs) = (ofHexChars (start + 2) cs).map (b :: ·) := by
  have hlt := b.toNat_lt
  have hhigh : b.toNat / 16 < 16 := by omega
  have hlow : b.toNat % 16 < 16 := by omega
  have hbyte : UInt8.ofNat (16 * (b.toNat / 16) + b.toNat % 16) = b := by
    rw [Nat.div_add_mod, UInt8.ofNat_toNat]
  simp only [hexPair, List.cons_append, List.nil_append, ofHexChars,
    isAsciiBlank_digitChar hhigh, Bool.false_eq_true, if_false, digit?_digitChar hhigh,
    digit?_digitChar hlow, hbyte]

/-- A blank between bytes is skipped by `ofHexChars`. -/
theorem ofHexChars_blank (start : Nat) {c : Char} (hc : Text.isAsciiBlank c = true)
    (cs : List Char) : ofHexChars start (c :: cs) = ofHexChars (start + 1) cs := by
  cases cs with
  | nil => simp [ofHexChars, hc]
  | cons d cs => rw [ofHexChars, if_pos hc]

/-- The characters of hex text with a space between two bytes, as `spacedHex` joins them. -/
def spacedChars (bs : Bytes) : List Char := [' '].intercalate (bs.map hexPair)

theorem spacedChars_cons_cons (b b' : UInt8) (bs : Bytes) :
    spacedChars (b :: b' :: bs) = hexPair b ++ ' ' :: spacedChars (b' :: bs) := by
  rw [spacedChars, List.map_cons, List.map_cons, List.intercalate_cons_cons, List.append_assoc]
  rfl

theorem toList_spacedHex (bs : Bytes) : (spacedHex bs).toList = spacedChars bs := by
  rw [spacedHex, String.toList_intercalate, List.map_map, spacedChars]
  congr 1
  exact List.map_congr_left fun b _ => String.toList_ofList

theorem toNat_lt_of_mem_hexPair {b : UInt8} {c : Char} (h : c ∈ hexPair b) : c.toNat < 0x80 := by
  have hlt := b.toNat_lt
  rcases List.mem_pair.1 h with rfl | rfl
  · exact toNat_digitChar_lt (by omega)
  · exact toNat_digitChar_lt (by omega)

theorem toNat_lt_of_mem_spacedChars {bs : Bytes} {c : Char} (h : c ∈ spacedChars bs) :
    c.toNat < 0x80 := by
  induction bs with
  | nil => cases h
  | cons b bs ih =>
      cases bs with
      | nil => exact toNat_lt_of_mem_hexPair h
      | cons b' bs =>
          rw [spacedChars_cons_cons] at h
          rcases List.mem_append.1 h with hpair | hrest
          · exact toNat_lt_of_mem_hexPair hpair
          · rcases List.mem_cons.1 hrest with rfl | hrest
            · decide
            · exact ih hrest

/-- The characters of `spacedChars` are read to their end. -/
theorem ofHexChars_spacedChars (start : Nat) (bs : Bytes) :
    ofHexChars start (spacedChars bs) = .ok bs := by
  induction bs generalizing start with
  | nil => rfl
  | cons b bs ih =>
      cases bs with
      | nil => exact ofHexChars_hexPair start b []
      | cons b' bs =>
          rw [spacedChars_cons_cons, ofHexChars_hexPair, ofHexChars_blank _ rfl, ih]
          rfl

/-- What `spacedHex` writes reads back as the bytes. -/
theorem ofHex_spacedHex (bs : Bytes) : ofHex (spacedHex bs) = .ok bs := by
  have hascii : (spacedChars bs).findIdx? (fun c => 0x80 ≤ c.toNat) = none := by
    rw [List.findIdx?_eq_none_iff]
    intro c hc
    have hlt := toNat_lt_of_mem_spacedChars hc
    exact decide_eq_false (by omega)
  rw [ofHex, toList_spacedHex, hascii]
  exact ofHexChars_spacedChars 0 bs

/-! ### Numeric value -/

/-- The bytes are the digits of `toNat` to base 256, the last one being the lowest. -/
theorem toNat_eq_ofDigits (bs : Bytes) :
    toNat bs = Nat.ofDigits 256 (bs.map UInt8.toNat).reverse := by
  induction bs with
  | nil => rfl
  | cons b bs ih =>
      rw [toNat_cons, ih, List.map_cons, List.reverse_cons, Nat.ofDigits_append,
        Nat.ofDigits_singleton, List.length_reverse, List.length_map]
      ring

theorem toNat_append (bs cs : Bytes) :
    toNat (bs ++ cs) = toNat bs * 256 ^ cs.length + toNat cs := by
  rw [toNat, List.foldl_append, foldl_eq]
  rfl

theorem toNat_eq_zero_iff {bs : Bytes} : toNat bs = 0 ↔ ∀ b ∈ bs, b = 0 := by
  induction bs with
  | nil => simp [toNat]
  | cons b bs ih =>
      have hpos : 256 ^ bs.length ≠ 0 := pow_ne_zero _ (by decide)
      rw [toNat_cons, Nat.add_eq_zero_iff, Nat.mul_eq_zero, or_iff_left hpos, ih,
        List.forall_mem_cons, ← UInt8.toNat_inj]
      rfl

/-- The value `toNat` of bytes, split before the last `width` ones. -/
theorem toNat_eq_take_drop {width : Nat} {bs : Bytes} (h : width ≤ bs.length) :
    toNat bs = toNat (bs.take (bs.length - width)) * 256 ^ width +
      toNat (bs.drop (bs.length - width)) := by
  have hlength : (bs.drop (bs.length - width)).length = width := by
    rw [List.length_drop]
    omega
  calc toNat bs
      = toNat (bs.take (bs.length - width) ++ bs.drop (bs.length - width)) := by
        rw [List.take_append_drop]
    _ = _ := by rw [toNat_append, hlength]

/-- Bytes denote a number of `width` bytes exactly if all before the last `width` ones are zero.
-/
theorem toNat_lt_iff {width : Nat} {bs : Bytes} :
    toNat bs < 256 ^ width ↔ ∀ b ∈ bs.take (bs.length - width), b = 0 := by
  rcases Nat.le_total bs.length width with hle | hle
  · have hlt : toNat bs < 256 ^ width :=
      (toNat_lt bs).trans_le (Nat.pow_le_pow_right (by decide) hle)
    simp [hlt, Nat.sub_eq_zero_of_le hle]
  · have hrest : toNat (bs.drop (bs.length - width)) < 256 ^ width := by
      have hlt := toNat_lt (bs.drop (bs.length - width))
      rwa [List.length_drop, Nat.sub_sub_self hle] at hlt
    rw [← toNat_eq_zero_iff, toNat_eq_take_drop hle]
    constructor
    · intro hlt
      by_contra hne
      have hone : 256 ^ width ≤ toNat (bs.take (bs.length - width)) * 256 ^ width :=
        Nat.le_mul_of_pos_left _ (Nat.pos_of_ne_zero hne)
      omega
    · intro hzero
      rwa [hzero, Nat.zero_mul, Nat.zero_add]

/-- Of more than `width` bytes, the last ones are kept. -/
theorem ofNat_toNat {width : Nat} {bs : Bytes} (h : width ≤ bs.length) :
    ofNat width (toNat bs) = bs.drop (bs.length - width) := by
  have hlength : (bs.drop (bs.length - width)).length = width := by
    rw [List.length_drop, Nat.sub_sub_self h]
  refine eq_of_toNat_eq ((length_ofNat ..).trans hlength.symm) ?_
  have hlt := toNat_lt (bs.drop (bs.length - width))
  rw [hlength] at hlt
  rw [toNat_ofNat, toNat_eq_take_drop h, Nat.mul_add_mod_self_right, Nat.mod_eq_of_lt hlt]

/-- Bytes that are not more than `width` are put behind zeros. -/
theorem ofNat_toNat_of_le {width : Nat} {bs : Bytes} (h : bs.length ≤ width) :
    ofNat width (toNat bs) = List.replicate (width - bs.length) 0 ++ bs := by
  have hlength : (List.replicate (width - bs.length) 0 ++ bs).length = width := by
    rw [List.length_append, List.length_replicate, Nat.sub_add_cancel h]
  have hzeros : toNat (List.replicate (width - bs.length) 0) = 0 :=
    toNat_eq_zero_iff.2 fun b hb => (List.mem_replicate.1 hb).2
  have hvalue : toNat (List.replicate (width - bs.length) 0 ++ bs) = toNat bs := by
    rw [toNat_append, hzeros, Nat.zero_mul, Nat.zero_add]
  rw [← hvalue, ofNat_toNat hlength.ge, hlength, Nat.sub_self, List.drop_zero]

end Bytes

/-! ### Fields -/

theorem Tagged.toInt_of_toBytes {v : Tagged} {d : Bytes} (htag : v.tag = Kind.hex.tag)
    (hv : v.toBytes = .ok d) : v.toInt = .ok (Bytes.toNat d) := by
  rw [Tagged.toInt, if_pos htag, hv]

/-- A field takes a hex value exactly if all bytes before its last `t.width` ones are zero,
whether the field has a sign or not. -/
theorem packField_hex_iff {t : FieldType} {v : Tagged} {d bs : Bytes}
    (htag : v.tag = Kind.hex.tag) (hv : v.toBytes = .ok d) :
    packField t.name v = .ok bs ↔
      (∀ b ∈ d.take (d.length - t.width), b = 0) ∧ bs = Bytes.ofNat t.width (Bytes.toNat d) := by
  have hint : v.fieldInt? = some (Bytes.toNat d : Int) :=
    Tagged.fieldInt?_eq_some_iff.2
      ⟨by rw [htag]; decide, by rw [htag]; decide, Tagged.toInt_of_toBytes htag hv⟩
  have hlow : t.low ≤ (Bytes.toNat d : Int) := by
    unfold FieldType.low
    split <;> omega
  have hhigh : (Bytes.toNat d : Int) ≤ t.high ↔ Bytes.toNat d < 256 ^ t.width := by
    rw [FieldType.high, ← FieldType.modulus_eq]
    omega
  have hencode : t.encode (Bytes.toNat d : Int) = Bytes.ofNat t.width (Bytes.toNat d) := by
    rw [FieldType.encode, if_neg (by omega), Int.toNat_natCast]
  rw [packField, FieldType.ofName?_eq_some_iff.2 rfl, hint, ← Bytes.toNat_lt_iff, ← hhigh]
  by_cases hle : (Bytes.toNat d : Int) ≤ t.high
  · simp [hlow, hle, hencode, eq_comm]
  · simp [hle]

/-- **The text of a frame is a hex value.** What `Frame.hex` gives reads back as the bytes of
the frame, with their value of base 256. Every `FieldType`, signed or not, takes bytes that are
not too many, behind zeros; of more bytes it takes the last ones, if all others are zero. -/
theorem Frame.hex_feedsBack (id : BusId) (d : Bytes) (name : String) :
    let v : Tagged := ⟨Kind.hex.tag, (Frame.mk id d name).hex⟩
    v.toBytes = .ok d ∧ v.toInt = .ok (Nat.ofDigits 256 (d.map UInt8.toNat).reverse : Nat) ∧
    ∀ t : FieldType,
      (d.length ≤ t.width →
        packField t.name v = .ok (List.replicate (t.width - d.length) 0 ++ d)) ∧
      (t.width < d.length →
        ((∃ bs, packField t.name v = .ok bs) ↔ ∀ b ∈ d.take (d.length - t.width), b = 0) ∧
        ∀ bs, packField t.name v = .ok bs → bs = d.drop (d.length - t.width)) := by
  intro v
  have hv : v.toBytes = .ok d := Bytes.ofHex_spacedHex d
  refine ⟨hv, ?_, fun t => ⟨fun hle => ?_, fun hlt => ⟨?_, fun bs hbs => ?_⟩⟩⟩
  · rw [← Bytes.toNat_eq_ofDigits]
    exact Tagged.toInt_of_toBytes rfl hv
  · rw [packField_hex_iff rfl hv, Bytes.ofNat_toNat_of_le hle, Nat.sub_eq_zero_of_le hle]
    simp
  · simp only [packField_hex_iff rfl hv, exists_and_left, exists_eq, and_true]
  · rw [((packField_hex_iff rfl hv).1 hbs).2, Bytes.ofNat_toNat hlt.le]

-- three bytes in a wider field, and behind a zero in narrower ones
theorem Frame.hex_feedsBack_telemetry :
    (Frame.mk .blank [255, 26, 0] "T").hex = "ff 1a 00" ∧
    packField "i32" ⟨"hex", "ff 1a 00"⟩ = .ok [0, 255, 26, 0] ∧
    (∃ bs, packField "i16" ⟨"hex", "00 ff 1a"⟩ = .ok bs) ∧
    ¬ ∃ bs, packField "u16" ⟨"hex", "ff 1a 00"⟩ = .ok bs := by
  have hwide := (hex_feedsBack .blank [255, 26, 0] "T").2.2
  have hnarrow := (hex_feedsBack .blank [0, 255, 26] "T").2.2
  have hzero : ∀ b ∈ [(0 : UInt8)], b = 0 := by simp
  have hnonzero : ¬ ∀ b ∈ [(255 : UInt8)], b = 0 := by simp
  refine ⟨rfl, (hwide .i32).1 (by decide), ?_, ?_⟩
  · exact ((hnarrow .i16).2 (by decide)).1.2 hzero
  · exact mt ((hwide .u16).2 (by decide)).1.1 hnonzero

end BusScript
