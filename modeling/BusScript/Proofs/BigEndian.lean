import BusScript.Wire
import Mathlib.Tactic.Ring

/-!
# Big-endian fields

The bytes of a field are determined by two facts: how many there are, and the
number that they denote with the most significant byte first. `Represents` says
what this number is, `represents_encode` that the encoder yields such bytes, and
`Represents.unique` that there are no others.
-/

namespace BusScript

namespace Bytes

theorem foldl_eq (bs : Bytes) (n : Nat) :
    bs.foldl (fun n b => 256 * n + b.toNat) n = n * 256 ^ bs.length + toNat bs := by
  unfold toNat
  induction bs generalizing n with
  | nil => simp
  | cons b bs ih =>
      rw [List.foldl_cons, List.foldl_cons, ih, ih (256 * 0 + b.toNat), List.length_cons, pow_succ]
      ring

theorem toNat_cons (b : UInt8) (bs : Bytes) :
    toNat (b :: bs) = b.toNat * 256 ^ bs.length + toNat bs := by
  rw [toNat, List.foldl_cons, foldl_eq, Nat.mul_zero, Nat.zero_add]

/-- As many bytes as there are bound the number: `toNat` is below a power of 256. -/
theorem toNat_lt (bs : Bytes) : toNat bs < 256 ^ bs.length := by
  induction bs with
  | nil => decide
  | cons b bs ih =>
      have hb : b.toNat + 1 ≤ 256 := b.toNat_lt
      calc toNat (b :: bs) < (b.toNat + 1) * 256 ^ bs.length := by
            rw [toNat_cons, Nat.add_one_mul]
            exact Nat.add_lt_add_left ih _
        _ ≤ 256 * 256 ^ bs.length := Nat.mul_le_mul_right _ hb
        _ = 256 ^ (b :: bs).length := by rw [List.length_cons, pow_succ']

/-- The lowest `width` bytes of a number denote it up to a multiple of `256 ^ width`. -/
theorem toNat_ofNat (width n : Nat) : toNat (ofNat width n) = n % 256 ^ width := by
  induction width with
  | zero => simp [ofNat, toNat, Nat.mod_one]
  | succ width ih =>
      have hbyte : (UInt8.ofNat (n / 256 ^ width)).toNat = n / 256 ^ width % 256 :=
        UInt8.toNat_ofNat'
      rw [ofNat, toNat_cons, ih, length_ofNat, Nat.pow_eq, hbyte, Nat.mod_pow_succ]
      ring

/-- Bytes are determined by their number and by the number that they denote (`toNat`). -/
theorem eq_of_toNat_eq {bs cs : Bytes} (hlength : bs.length = cs.length)
    (h : toNat bs = toNat cs) : bs = cs := by
  induction bs generalizing cs with
  | nil =>
      cases cs with
      | nil => rfl
      | cons c cs => cases hlength
  | cons b bs ih =>
      cases cs with
      | nil => cases hlength
      | cons c cs =>
          have htail : bs.length = cs.length := Nat.succ.inj hlength
          rw [toNat_cons, toNat_cons, htail] at h
          have hbs : toNat bs < 256 ^ cs.length := htail ▸ toNat_lt bs
          -- the first bytes are the quotients by the weight of the first place, the others the rest
          have hquot := congrArg (· / 256 ^ cs.length) h
          have hrest := congrArg (· % 256 ^ cs.length) h
          have hpos : 0 < 256 ^ cs.length := Nat.pow_pos (by decide)
          simp only [Nat.mul_comm _ (256 ^ cs.length), Nat.mul_add_div hpos,
            Nat.div_eq_of_lt hbs, Nat.div_eq_of_lt (toNat_lt cs), Nat.add_zero] at hquot
          simp only [Nat.mul_add_mod_self_right, Nat.mod_eq_of_lt hbs,
            Nat.mod_eq_of_lt (toNat_lt cs)] at hrest
          rw [UInt8.toNat_inj.1 hquot, ih htail hrest]

end Bytes

namespace FieldType

/-- The bytes `bs` hold the number `n`: as many bytes as the type has, most significant byte
first, with negative numbers in two's complement. -/
structure Represents (t : FieldType) (n : Int) (bs : Bytes) : Prop where
  length : bs.length = t.width
  toNat : (Bytes.toNat bs : Int) = n % t.modulus

theorem modulus_eq (t : FieldType) : t.modulus = 256 ^ t.width := by
  rw [modulus, bits, Nat.pow_eq, pow_mul]
  rfl

/-- A number has one representation in a type. -/
theorem Represents.unique {t : FieldType} {n : Int} {bs cs : Bytes} (h : t.Represents n bs)
    (h' : t.Represents n cs) : bs = cs :=
  Bytes.eq_of_toNat_eq (h.length.trans h'.length.symm)
    (Int.ofNat_inj.1 (h.toNat.trans h'.toNat.symm))

/-- A number that is not below `low` is represented by the bytes of `encode`. -/
theorem represents_encode {t : FieldType} {n : Int} (hlow : t.low ≤ n) :
    t.Represents n (t.encode n) := by
  refine ⟨Bytes.length_ofNat .., ?_⟩
  rw [encode, Bytes.toNat_ofNat, ← modulus_eq, Int.natCast_mod]
  split
  · rename_i hneg
    have hnonneg : 0 ≤ n + t.modulus := by
      unfold low at hlow
      split at hlow <;> omega
    rw [Int.toNat_of_nonneg hnonneg, Int.add_emod_right]
  · rename_i hneg
    rw [Int.toNat_of_nonneg (Int.not_lt.1 hneg)]

end FieldType

end BusScript
