import BusScript.Proofs.Decimal
import BusScript.Proofs.Overlong
import Mathlib.Data.Nat.Digits.Lemmas

/-!
# Exact arithmetic on texts

A sum, difference or product of integers is computed between texts: both operands
are read, and the result is written. Nothing is lost on the way. The operands may
be spelled in any way that is read, and the result is spelled in the one way in
which it can be written:

* `canonical_iff` — an integer has exactly one decimal text without leading zeros
  and superfluous signs, and that is the one that is written;
* `apply_of_denotes` — on values that denote integers, an operator is the operation
  on integers, followed by writing;
* `denotes_of_ofResult` — what was written denotes the integer again, so that
  operations can be chained.

The laws of integers then hold of values (`IntegerLaws`), as long as no
intermediate result is too long to be written.
-/

namespace BusScript

namespace Numeral

/-! ### Canonical decimal text -/

/-- The characters `run` are the decimal digits of `n`, without leading zeros. -/
structure DigitsOf (n : Nat) (run : List Char) : Prop where
  nonempty : run ≠ []
  digits : ∀ c ∈ run, c.isDigit = true
  leading : run.head? = some '0' → run = ['0']
  value : Nat.ofDigitChars 10 run 0 = n

/-- The canonical decimal text of an integer: its digits (`DigitsOf`), behind a minus sign if
the integer is negative. -/
def Canonical (n : Int) (text : String) : Prop :=
  ∃ run, DigitsOf n.natAbs run ∧ text.toList = if n < 0 then '-' :: run else run

theorem digitChar_of_isDigit {c : Char} (h : c.isDigit = true) :
    Nat.digitChar (c.toNat - '0'.toNat) = c := by
  obtain ⟨hlow, hhigh⟩ := toNat_of_isDigit h
  have hzero : '0'.toNat = 48 := rfl
  apply Char.toNat_inj.1
  rw [hzero, Nat.toNat_digitChar_of_lt_ten (by omega)]
  omega

theorem sub_zero_lt_ten {c : Char} (h : c.isDigit = true) : c.toNat - '0'.toNat < 10 := by
  obtain ⟨hlow, hhigh⟩ := toNat_of_isDigit h
  have hzero : '0'.toNat = 48 := rfl
  omega

/-- Digits behind those of a positive number go on writing that number: `Nat.toDigits` against
`Nat.ofDigitChars`. -/
theorem toDigits_append {n : Nat} {run : List Char} (hn : 0 < n)
    (h : ∀ c ∈ run, c.isDigit = true) :
    Nat.toDigits 10 n ++ run = Nat.toDigits 10 (Nat.ofDigitChars 10 run n) := by
  induction run generalizing n with
  | nil => exact List.append_nil _
  | cons c cs ih =>
      have hc := h c List.mem_cons_self
      have hstep := Nat.toDigits_append_toDigits (b := 10) (by decide) hn (sub_zero_lt_ten hc)
      rw [Nat.toDigits_of_lt_base (sub_zero_lt_ten hc), digitChar_of_isDigit hc] at hstep
      rw [List.append_cons, hstep, Nat.ofDigitChars_cons]
      exact ih (by omega) fun d hd => h d (List.mem_cons_of_mem c hd)

/-- There is one way to write a number without leading zeros, that of `Nat.toDigits`. -/
theorem DigitsOf.eq_toDigits {n : Nat} {run : List Char} (h : DigitsOf n run) :
    run = Nat.toDigits 10 n := by
  cases run with
  | nil => exact absurd rfl h.nonempty
  | cons c cs =>
      have hc := h.digits c List.mem_cons_self
      by_cases hzero : c = '0'
      · have hrun := h.leading (by rw [hzero]; rfl)
        have hvalue := h.value
        rw [hrun] at hvalue ⊢
        rw [← hvalue]
        rfl
      · have hpos : 0 < c.toNat - '0'.toNat := by
          obtain ⟨hlow, -⟩ := toNat_of_isDigit hc
          have hne : c.toNat ≠ '0'.toNat := fun heq => hzero (Char.toNat_inj.1 heq)
          have h0 : '0'.toNat = 48 := rfl
          omega
        have hrest := toDigits_append hpos fun d hd => h.digits d (List.mem_cons_of_mem c hd)
        rw [Nat.toDigits_of_lt_base (sub_zero_lt_ten hc), digitChar_of_isDigit hc] at hrest
        rw [← h.value, Nat.ofDigitChars_cons, Nat.mul_zero, Nat.zero_add, ← hrest]
        rfl

/-- Numbers are not written with leading zeros by `Nat.toDigits`. -/
theorem toDigits_of_head? (n : Nat) (h : (Nat.toDigits 10 n).head? = some '0') :
    Nat.toDigits 10 n = ['0'] := by
  induction n using Nat.strongRecOn with
  | ind n ih =>
      by_cases hlt : n < 10
      · rw [Nat.toDigits_of_lt_base hlt] at h ⊢
        rw [Option.some.inj h]
      · rw [Nat.toDigits_eq_if (by decide), if_neg hlt,
          List.head?_append_of_ne_nil _ Nat.toDigits_ne_nil] at h
        -- the first digit is that of the tenth part, which is not zero
        have hvalue := Nat.ofDigitChars_toDigits (b := 10) (n := n / 10) (by decide) (by decide)
        rw [ih (n / 10) (by omega) h] at hvalue
        have hzero : n / 10 = 0 := hvalue.symm
        omega

theorem digitsOf_toDigits (n : Nat) : DigitsOf n (Nat.toDigits 10 n) where
  nonempty := Nat.toDigits_ne_nil
  digits := isDigit_of_mem_digits n
  leading := toDigits_of_head? n
  value := Nat.ofDigitChars_toDigits (by decide) (by decide)

/-- An integer has one `Canonical` text, which is that of `decimal`. -/
theorem canonical_iff {n : Int} {text : String} : Canonical n text ↔ text = decimal n := by
  have hdecimal : (decimal n).toList =
      if n < 0 then '-' :: Nat.toDigits 10 n.natAbs else Nat.toDigits 10 n.natAbs := by
    simp [decimal]
  constructor
  · intro h
    obtain ⟨run, hrun, htext⟩ := h
    apply String.toList_injective
    rw [htext, hdecimal, hrun.eq_toDigits]
  · intro h
    subst h
    exact ⟨_, digitsOf_toDigits n.natAbs, hdecimal⟩

/-- A number is `writable` exactly if it has no more digits than `maxDigits`. -/
theorem writable_iff {n : Int} :
    writable n = true ↔ (Nat.digits 10 n.natAbs).length ≤ maxDigits := by
  rw [Nat.digits_length_le_iff (by decide), writable, decide_eq_true_eq, Nat.pow_eq]

end Numeral

/-! ### One operation -/

namespace Tagged

variable {v : Tagged} {m n : Int}

/-- A value has the tag of `Kind.int` and holds the `Canonical` text of `n`. -/
structure Writes (v : Tagged) (n : Int) : Prop where
  tag : v.tag = Kind.int.tag
  payload : Numeral.Canonical n v.payload

/-- A value denotes one integer at most. -/
theorem Denotes.unique (h : v.Denotes m) (h' : v.Denotes n) : m = n :=
  Except.ok.inj (h.parse.symm.trans h'.parse)

theorem Denotes.toInt (h : v.Denotes n) : v.toInt = .ok n := by
  have htag : v.tag ≠ Kind.hex.tag := by
    rw [h.tag]
    decide
  rw [Tagged.toInt, if_neg htag, h.parse]

end Tagged

namespace Operator

variable {op : Operator} {f : Int → Int → Int} {x y z s t v : Tagged} {m n : Int}

theorem applySign_sign (op : Operator) (x y : Tagged) : applySign op.sign x y = op.apply x y := by
  cases op <;> rfl

/-- The result of an operation is written exactly if it is `writable`, and then in decimal text.
-/
theorem ofResult_eq_ok_iff :
    ofResult n = .ok v ↔ Numeral.writable n = true ∧ v = ⟨Kind.int.tag, Numeral.decimal n⟩ := by
  unfold ofResult Tagged.ofInt? Numeral.write?
  cases Numeral.writable n <;> simp [eq_comm]

theorem writes_of_ofResult (h : ofResult n = .ok v) : v.Writes n := by
  obtain ⟨-, rfl⟩ := ofResult_eq_ok_iff.1 h
  exact ⟨rfl, Numeral.canonical_iff.2 rfl⟩

/-- What `ofResult` wrote denotes the integer again. -/
theorem denotes_of_ofResult (h : ofResult n = .ok v) : v.Denotes n := by
  obtain ⟨hw, rfl⟩ := ofResult_eq_ok_iff.1 h
  exact ⟨rfl, Numeral.parse_decimal hw⟩

/-- Between values with the tag of integers, `+` adds as well, and does not join texts. -/
theorem apply_of_tag (hf : op.integral? = some f) (hx : x.tag = Kind.int.tag)
    (hy : y.tag = Kind.int.tag) : op.apply x y = op.onInts f x y := by
  cases op with
  | add =>
      cases hf
      rw [apply, if_pos (bothTagged_int_iff.2 ⟨hx, hy⟩)]
  | sub => cases hf; rfl
  | mul => cases hf; rfl
  | div => cases hf

/-- On values that denote integers, an operator is the operation `f` on integers, followed by
writing. -/
theorem apply_of_denotes (hf : op.integral? = some f) (hx : x.Denotes m) (hy : y.Denotes n) :
    op.apply x y = ofResult (f m n) := by
  rw [apply_of_tag hf hx.tag hy.tag, onInts, ints_eq_ok_iff.2 ⟨hx, hy⟩]

/-- Between values with the tag of integers, an operator returns something only if both denote
integers. The result denotes what `f` gives. -/
theorem denotes_of_apply (hf : op.integral? = some f) (hx : x.tag = Kind.int.tag)
    (hy : y.tag = Kind.int.tag) (h : op.apply x y = .ok v) :
    ∃ m n, x.Denotes m ∧ y.Denotes n ∧ v.Denotes (f m n) := by
  rw [apply_of_tag hf hx hy, onInts] at h
  cases hints : op.ints x y with
  | error e =>
      rw [hints] at h
      cases h
  | ok operands =>
      rw [hints] at h
      obtain ⟨hm, hn⟩ := ints_eq_ok_iff.1 hints
      exact ⟨_, _, hm, hn, denotes_of_ofResult h⟩

/-- The operator computes the integer `n` from two values exactly. -/
structure Exact (op : Operator) (x y : Tagged) (n : Int) : Prop where
  /-- What is returned is the canonical text of the integer (`Tagged.Writes`), and reads back.
  -/
  result : ∀ v, applySign op.sign x y = .ok v → v.Writes n ∧ v.toInt = .ok n
  /-- Something is returned exactly if the integer has at most `Numeral.maxDigits` digits. -/
  returns : (∃ v, applySign op.sign x y = .ok v) ↔
    (Nat.digits 10 n.natAbs).length ≤ Numeral.maxDigits
  /-- Nothing but their number is an obstacle. -/
  obstacle : Numeral.maxDigits < (Nat.digits 10 n.natAbs).length →
    applySign op.sign x y = .error .unwritable

/-- All of `Exact` holds for values that denote integers. -/
theorem exact_of_denotes (hf : op.integral? = some f) (hx : x.Denotes m) (hy : y.Denotes n) :
    op.Exact x y (f m n) := by
  have happly := (applySign_sign op x y).trans (apply_of_denotes hf hx hy)
  constructor
  · intro v hv
    rw [happly] at hv
    exact ⟨writes_of_ofResult hv, (denotes_of_ofResult hv).toInt⟩
  · simp only [happly, ofResult_eq_ok_iff, exists_and_left, exists_eq, and_true]
    exact Numeral.writable_iff
  · intro hlong
    rw [happly, ofResult_eq_unwritable_iff, ← Bool.not_eq_true, Numeral.writable_iff]
    omega

/-! ### Laws -/

/-- The laws of integers that hold of the values `x`, `y` and `z`, as long as the intermediate
results are returned. -/
structure IntegerLaws (x y z : Tagged) : Prop where
  add_comm : ∀ v, applySign "+" x y = .ok v ↔ applySign "+" y x = .ok v
  mul_comm : ∀ v, applySign "*" x y = .ok v ↔ applySign "*" y x = .ok v
  add_assoc : ∀ s t, applySign "+" x y = .ok s → applySign "+" y z = .ok t →
    applySign "+" s z = applySign "+" x t
  mul_assoc : ∀ s t, applySign "*" x y = .ok s → applySign "*" y z = .ok t →
    applySign "*" s z = applySign "*" x t
  mul_add : ∀ s p q, applySign "+" y z = .ok s → applySign "*" x y = .ok p →
    applySign "*" x z = .ok q → applySign "*" x s = applySign "+" p q
  add_sub_cancel : ∀ s v, applySign "+" x y = .ok s → applySign "-" s y = .ok v →
    ∃ n, x.Denotes n ∧ v.Writes n

/-- An operator whose operation `f` commutes does so on values, also in what it refuses. -/
theorem apply_comm (hf : op.integral? = some f) (hcomm : ∀ m n, f m n = f n m)
    (hx : x.tag = Kind.int.tag) (hy : y.tag = Kind.int.tag) (h : op.apply x y = .ok v) :
    op.apply y x = .ok v := by
  obtain ⟨m, n, hm, hn, -⟩ := denotes_of_apply hf hx hy h
  rw [apply_of_denotes hf hn hm, hcomm, ← apply_of_denotes hf hm hn, h]

/-- An operator whose operation `f` associates does so on values, if both intermediate results
are returned. -/
theorem apply_assoc (hf : op.integral? = some f) (hassoc : ∀ k m n, f (f k m) n = f k (f m n))
    (hx : x.tag = Kind.int.tag) (hy : y.tag = Kind.int.tag) (hz : z.tag = Kind.int.tag)
    (hs : op.apply x y = .ok s) (ht : op.apply y z = .ok t) :
    op.apply s z = op.apply x t := by
  obtain ⟨k, m, hk, hm, hsum⟩ := denotes_of_apply hf hx hy hs
  obtain ⟨m', n, hm', hn, hsum'⟩ := denotes_of_apply hf hy hz ht
  cases hm.unique hm'
  rw [apply_of_denotes hf hsum hn, apply_of_denotes hf hk hsum', hassoc]

/-- Products distribute over sums, if all intermediate results are returned. -/
theorem mul_apply_add {p q : Tagged} (hx : x.tag = Kind.int.tag) (hy : y.tag = Kind.int.tag)
    (hz : z.tag = Kind.int.tag) (hs : apply .add y z = .ok s) (hp : apply .mul x y = .ok p)
    (hq : apply .mul x z = .ok q) : apply .mul x s = apply .add p q := by
  obtain ⟨m, n, hm, hn, hsum⟩ := denotes_of_apply rfl hy hz hs
  obtain ⟨k, m', hk, hm', hleft⟩ := denotes_of_apply rfl hx hy hp
  obtain ⟨k', n', hk', hn', hright⟩ := denotes_of_apply rfl hx hz hq
  cases hm.unique hm'
  cases hn.unique hn'
  cases hk.unique hk'
  rw [apply_of_denotes rfl hk hsum, apply_of_denotes rfl hleft hright, Int.mul_add]

/-- Subtracting what was added gives the canonical text of the first operand, however that was
spelled. -/
theorem add_apply_sub (hx : x.tag = Kind.int.tag) (hy : y.tag = Kind.int.tag)
    (hs : apply .add x y = .ok s) (hv : apply .sub s y = .ok v) :
    ∃ n, x.Denotes n ∧ v.Writes n := by
  obtain ⟨m, n, hm, hn, hsum⟩ := denotes_of_apply rfl hx hy hs
  rw [apply_of_denotes rfl hsum hn, Int.add_sub_cancel] at hv
  exact ⟨m, hm, writes_of_ofResult hv⟩

theorem integerLaws_of_tag (hx : x.tag = Kind.int.tag) (hy : y.tag = Kind.int.tag)
    (hz : z.tag = Kind.int.tag) : IntegerLaws x y z where
  add_comm v := by
    show apply .add x y = .ok v ↔ apply .add y x = .ok v
    exact ⟨apply_comm rfl Int.add_comm hx hy, apply_comm rfl Int.add_comm hy hx⟩
  mul_comm v := by
    show apply .mul x y = .ok v ↔ apply .mul y x = .ok v
    exact ⟨apply_comm rfl Int.mul_comm hx hy, apply_comm rfl Int.mul_comm hy hx⟩
  add_assoc s t hs ht := by
    show apply .add s z = apply .add x t
    exact apply_assoc rfl Int.add_assoc hx hy hz hs ht
  mul_assoc s t hs ht := by
    show apply .mul s z = apply .mul x t
    exact apply_assoc rfl Int.mul_assoc hx hy hz hs ht
  mul_add _ _ _ := mul_apply_add hx hy hz
  add_sub_cancel _ _ := add_apply_sub hx hy

/-- **Integers are computed with exactly.** Whatever way two integers are spelled that is read,
their sum, difference and product are returned in canonical decimal text (`Exact`), unless they
have more digits than can be written. Hence the laws of integers (`IntegerLaws`) hold of all
values with the tag of integers. -/
theorem integers_exact :
    (∀ (op : Operator) (f : Int → Int → Int) (x y : Tagged) (m n : Int),
      op.integral? = some f → x.Denotes m → y.Denotes n → op.Exact x y (f m n)) ∧
    ∀ x y z : Tagged, x.tag = Kind.int.tag → y.tag = Kind.int.tag → z.tag = Kind.int.tag →
      IntegerLaws x y z :=
  ⟨fun _ _ _ _ _ _ => exact_of_denotes, fun _ _ _ => integerLaws_of_tag⟩

-- three spellings of integers, and one of an integer that is read and cannot be written
theorem integers_exact_spellings :
    let x : Tagged := ⟨"int", " +0x_fF "⟩
    let y : Tagged := ⟨"int", "-1_0"⟩
    let z : Tagged := ⟨"int", "-00"⟩
    let long : Tagged :=
      ⟨"int", String.ofList (Numeral.hexLiteral true (Numeral.hexPower Numeral.longZeros))⟩
    (x.Denotes 255 ∧ y.Denotes (-10) ∧ applySign "*" x y = .ok ⟨"int", "-2550"⟩ ∧
      Exact .mul x y (-2550)) ∧
    (long.Denotes (Numeral.signed true (Nat.pow 16 Numeral.longZeros)) ∧
      applySign "+" long z = .error .unwritable) ∧
    IntegerLaws x y z := by
  intro x y z long
  have hx : x.Denotes 255 := ⟨rfl, by decide +kernel⟩
  have hy : y.Denotes (-10) := ⟨rfl, by decide +kernel⟩
  have hlong : long.Denotes (Numeral.signed true (Nat.pow 16 Numeral.longZeros)) :=
    ⟨rfl, Numeral.parse_hexPower true Numeral.longZeros⟩
  have hz : z.Denotes 0 := ⟨rfl, by decide +kernel⟩
  refine ⟨⟨hx, hy, by decide +kernel, ?_⟩, ⟨hlong, ?_⟩, integers_exact.2 x y z rfl rfl rfl⟩
  · exact integers_exact.1 .mul _ x y 255 (-10) rfl hx hy
  · refine (integers_exact.1 .add _ long z _ 0 rfl hlong hz).obstacle ?_
    have hnot := Numeral.not_writable_longZeros true
    rw [← Bool.not_eq_true, Numeral.writable_iff, Nat.not_le] at hnot
    rwa [Int.add_zero]

end Operator

end BusScript
