import BusScript.Numeral.Integer
import Mathlib.Data.List.TakeWhile

/-!
# Hex literals

A literal with the base mark `0x` is read in full, however long it is
(`parse_hexLiteral`), while decimal text is limited to `maxDigits` digits in
both directions. So there are integers that can be read and not be written:
`parse_hexPower` reads the powers of sixteen, and `not_writable_longZeros` shows
one that is too long.
-/

namespace BusScript.Numeral

/-- Where the characters stand that `digit?` takes for digits of base sixteen. -/
theorem toNat_of_digit? {c : Char} (h : (digit? 16 c).isSome = true) :
    0x30 ≤ c.toNat ∧ c.toNat ≤ 0x66 ∧ c.toNat ≠ 0x5f := by
  have h0 : '0'.toNat = 48 := rfl
  have h9 : '9'.toNat = 57 := rfl
  have ha : 'a'.toNat = 97 := rfl
  have hf : 'f'.toNat = 102 := rfl
  have hA : 'A'.toNat = 65 := rfl
  have hF : 'F'.toNat = 70 := rfl
  simp only [digit?, h0, h9, ha, hf, hA, hF, Bool.and_eq_true, decide_eq_true_eq] at h
  split at h
  · omega
  · split at h
    · omega
    · split at h
      · omega
      · simp at h

theorem ne_underscore_of_digit? {c : Char} (h : (digit? 16 c).isSome = true) : c ≠ '_' := by
  rintro rfl
  exact (toNat_of_digit? h).2.2 rfl

/-- Characters that a literal of base sixteen is made of: neither blank (`isBlank`) nor outside
ASCII. -/
theorem isBlank_of_toNat {c : Char} (h : 0x21 ≤ c.toNat ∧ c.toNat < 0x80) :
    Text.isBlank c = false := by
  have hs : c ≠ ' ' := by
    rintro rfl
    exact absurd h.1 (by decide)
  simp only [Text.isBlank, Text.isAsciiBlank, Bool.or_eq_false_iff, Bool.and_eq_false_iff,
    decide_eq_false_iff_not, hs, not_false_eq_true, true_and]
  omega

theorem trim_of_forall {cs : List Char} (h : ∀ c ∈ cs, Text.isBlank c = false) :
    Text.trim Text.isBlank cs = cs := by
  have hdrop : ∀ ds : List Char, (∀ c ∈ ds, Text.isBlank c = false) →
      ds.dropWhile Text.isBlank = ds := by
    intro ds hds
    cases ds with
    | nil => rfl
    | cons d ds => rw [List.dropWhile_cons, hds d List.mem_cons_self]; rfl
  rw [Text.trim, hdrop cs h, hdrop cs.reverse (fun c hc => h c (List.mem_reverse.1 hc)),
    List.reverse_reverse]

theorem plainNumeral_of_forall {cs : List Char} (h : ∀ c ∈ cs, c.toNat < 0x80) :
    Text.plainNumeral (String.ofList cs) = cs := by
  rw [Text.plainNumeral, String.toList_ofList]
  refine (List.map_congr_left fun c hc => ?_).trans (List.map_id cs)
  rw [Text.plainNumeralChar, if_pos (h c hc)]
  rfl

theorem wellSpaced_of_forall {cs : List Char} (h : ∀ c ∈ cs, c ≠ '_') :
    wellSpaced true cs = true := by
  induction cs with
  | nil => rfl
  | cons c cs ih =>
      rw [wellSpaced, if_neg (h c List.mem_cons_self)]
      exact ih fun d hd => h d (List.mem_cons_of_mem c hd)

/-- The characters of a hex literal: the digits `run` behind the mark `0x`. -/
def hexLiteral (negative : Bool) (run : List Char) : List Char :=
  if negative then '-' :: '0' :: 'x' :: run else '0' :: 'x' :: run

/-- A `hexLiteral` is no decimal literal. -/
theorem readDecimal_hexLiteral (negative : Bool) (run : List Char) :
    readDecimal (hexLiteral negative run) = .malformed := by
  cases negative <;> rfl

/-- The digits behind the mark are read to the end by `readPrefixed?`. -/
theorem readPrefixed?_hexLiteral (negative : Bool) {run : List Char} (hne : run ≠ [])
    (h : ∀ c ∈ run, (digit? 16 c).isSome = true) :
    readPrefixed? (hexLiteral negative run) =
      some (signed negative (ofDigits 16 (runDigits 16 run))) := by
  have hin : ∀ c ∈ run, inRun 16 c = true := fun c hc => by simp [inRun, h c hc]
  have htake : run.takeWhile (inRun 16) = run := List.takeWhile_eq_self_iff.2 hin
  have hdrop : run.dropWhile (inRun 16) = [] := List.dropWhile_eq_nil_iff.2 hin
  have hafter : afterMark run = run := by
    cases run with
    | nil => rfl
    | cons c cs =>
        have hc := ne_underscore_of_digit? (h c List.mem_cons_self)
        unfold afterMark
        split
        · rename_i heq
          cases heq
          exact absurd rfl hc
        · rfl
  have hspaced : wellSpaced false run = true := by
    cases run with
    | nil => exact absurd rfl hne
    | cons c cs =>
        rw [wellSpaced, if_neg (ne_underscore_of_digit? (h c List.mem_cons_self))]
        exact wellSpaced_of_forall fun d hd =>
          ne_underscore_of_digit? (h d (List.mem_cons_of_mem c hd))
  -- the sign and the mark are fixed characters, so they are read by evaluation
  have hbody : readPrefixed? (hexLiteral negative run) =
      if wellSpaced false ((afterMark run).takeWhile (inRun 16)) &&
          ((afterMark run).dropWhile (inRun 16)).all Text.isAsciiBlank then
        some (signed negative
          (ofDigits 16 (runDigits 16 ((afterMark run).takeWhile (inRun 16)))))
      else none := by
    cases negative <;> rfl
  rw [hbody, hafter, htake, hdrop, hspaced]
  rfl

/-- A `hexLiteral` denotes the number of its digits, however many there are. -/
theorem parse_hexLiteral (negative : Bool) {run : List Char} (hne : run ≠ [])
    (h : ∀ c ∈ run, (digit? 16 c).isSome = true) :
    parse (String.ofList (hexLiteral negative run)) =
      .ok (signed negative (ofDigits 16 (runDigits 16 run))) := by
  have hchars : ∀ c ∈ hexLiteral negative run, 0x21 ≤ c.toNat ∧ c.toNat < 0x80 := by
    have hmark : ∀ c ∈ ['-', '0', 'x'], 0x21 ≤ c.toNat ∧ c.toNat < 0x80 := by
      intro c hc
      simp only [List.mem_cons, List.not_mem_nil, or_false] at hc
      rcases hc with rfl | rfl | rfl <;> decide
    have hrun : ∀ c ∈ run, 0x21 ≤ c.toNat ∧ c.toNat < 0x80 := fun c hc => by
      have hb := toNat_of_digit? (h c hc)
      omega
    intro c hc
    cases negative <;> simp only [hexLiteral, Bool.false_eq_true, if_false, if_true,
      List.mem_cons] at hc
    · rcases hc with rfl | rfl | hc
      · exact hmark _ (by simp)
      · exact hmark _ (by simp)
      · exact hrun c hc
    · rcases hc with rfl | rfl | rfl | hc
      · exact hmark _ (by simp)
      · exact hmark _ (by simp)
      · exact hmark _ (by simp)
      · exact hrun c hc
  -- no character is a blank or of another script, so nothing is trimmed or replaced
  have htrim := trim_of_forall fun c hc => isBlank_of_toNat (hchars c hc)
  have hplain := plainNumeral_of_forall fun c hc => (hchars c hc).2
  simp only [parse, String.toList_ofList, htrim, hplain, readDecimal_hexLiteral,
    readPrefixed?_hexLiteral negative hne h]

/-! ### Powers of sixteen -/

/-- A one and `k` zeros: the digits of a power of sixteen. -/
def hexPower (k : Nat) : List Char := '1' :: List.replicate k '0'

theorem foldl_replicate_zero (k n : Nat) :
    (List.replicate k 0).foldl (fun n d => 16 * n + d) n = n * Nat.pow 16 k := by
  induction k generalizing n with
  | zero => simp
  | succ k ih =>
      have hpow : Nat.pow 16 (k + 1) = Nat.pow 16 k * 16 := rfl
      rw [List.replicate_succ, List.foldl_cons, ih, Nat.add_zero, hpow]
      ac_rfl

/-- The literal of `hexPower k` denotes `16 ^ k`. -/
theorem parse_hexPower (negative : Bool) (k : Nat) :
    parse (String.ofList (hexLiteral negative (hexPower k))) =
      .ok (signed negative (Nat.pow 16 k)) := by
  have hdigits : ∀ c ∈ hexPower k, (digit? 16 c).isSome = true := by
    intro c hc
    rcases List.mem_cons.1 hc with rfl | hc
    · rfl
    · rw [(List.mem_replicate.1 hc).2]
      rfl
  have hrun : runDigits 16 (hexPower k) = 1 :: List.replicate k 0 := by
    have hone : digit? 16 '1' = some 1 := rfl
    have hzero : digit? 16 '0' = some 0 := rfl
    rw [runDigits, hexPower, List.filterMap_cons_some hone, List.filterMap_replicate_of_some hzero]
  have hne : hexPower k ≠ [] := List.cons_ne_nil _ _
  rw [parse_hexLiteral negative hne hdigits, hrun, ofDigits, List.foldl_cons,
    foldl_replicate_zero, Nat.mul_zero, Nat.zero_add, Nat.one_mul]

/-- A number of zeros with which a power of sixteen is not `writable`. -/
def longZeros : Nat := 3600

theorem limit_le_longZeros : Nat.pow 10 maxDigits ≤ Nat.pow 16 longZeros := by
  decide +kernel

theorem not_writable_longZeros (negative : Bool) :
    writable (signed negative (Nat.pow 16 longZeros)) = false := by
  have habs : (signed negative (Nat.pow 16 longZeros)).natAbs = Nat.pow 16 longZeros := by
    cases negative with
    | false => exact Int.natAbs_natCast _
    | true => exact (Int.natAbs_neg _).trans (Int.natAbs_natCast _)
  rw [writable, habs]
  exact decide_eq_false (Nat.not_lt.2 limit_le_longZeros)

end BusScript.Numeral
