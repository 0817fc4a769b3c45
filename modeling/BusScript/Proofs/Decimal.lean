import BusScript.Assoc
import BusScript.CommandLine.Options
import BusScript.Proofs.Numeral

/-!
# Decimal text

An integer that is short enough to be written is read back from its decimal
text, both where base marks are admitted (`parse_decimal`) and where they are
not (`parseDecimal_decimal`). On a command line the text is a plain word, also
that of a negative number (`classify_decimal`).
-/

namespace BusScript

namespace Numeral

/-! ### Digits -/

theorem toNat_of_isDigit {c : Char} (h : c.isDigit = true) : 0x30 ≤ c.toNat ∧ c.toNat ≤ 0x39 := by
  simp only [Char.isDigit, ge_iff_le, Bool.and_eq_true, decide_eq_true_eq, UInt32.le_iff_toNat_le]
    at h
  exact h

/-- A decimal digit of ASCII is a digit for `digit?`, with the value of its code. -/
theorem digit?_of_isDigit {c : Char} (h : c.isDigit = true) :
    digit? 10 c = some (c.toNat - '0'.toNat) := by
  obtain ⟨hlow, hhigh⟩ := toNat_of_isDigit h
  have h0 : '0'.toNat = 48 := rfl
  have h9 : '9'.toNat = 57 := rfl
  have hrange : (decide (48 ≤ c.toNat) && decide (c.toNat ≤ 57)) = true := by
    simpa using ⟨hlow, hhigh⟩
  have hlt : c.toNat - 48 < 10 := by omega
  simp only [digit?, h0, h9, hrange, if_true, hlt]

theorem ne_of_isDigit {c d : Char} (h : c.isDigit = true) (hd : d.isDigit = false) : c ≠ d := by
  rintro rfl
  rw [h] at hd
  cases hd

/-- Of a text of digits `runDigits` reads every character. -/
theorem runDigits_of_isDigit {run : List Char} (h : ∀ c ∈ run, c.isDigit = true) :
    runDigits 10 run = run.map fun c => c.toNat - '0'.toNat := by
  induction run with
  | nil => rfl
  | cons c cs ih =>
      rw [List.map_cons, ← ih fun d hd => h d (List.mem_cons_of_mem c hd)]
      exact List.filterMap_cons_some (digit?_of_isDigit (h c List.mem_cons_self))

/-! ### Literals -/

theorem isAsciiBlank_of_toNat {c : Char} (hc : 0x21 ≤ c.toNat) : Text.isAsciiBlank c = false := by
  have hspace : c ≠ ' ' := by
    rintro rfl
    exact absurd hc (by decide)
  simp only [Text.isAsciiBlank, hspace, decide_false, Bool.false_or, Bool.and_eq_false_iff,
    decide_eq_false_iff_not]
  omega

/-- In front of a digit there is neither a blank nor a sign for `takeSign`. -/
theorem takeSign_of_toNat {c : Char} (hc : 0x30 ≤ c.toNat) (body : List Char) :
    takeSign ((c :: body).dropWhile Text.isAsciiBlank) = (false, c :: body) := by
  rw [List.dropWhile_cons, isAsciiBlank_of_toNat (by omega), if_neg Bool.false_ne_true]
  unfold takeSign
  split
  · rename_i heq
    cases heq
    exact absurd hc (by decide)
  · rename_i heq
    cases heq
    exact absurd hc (by decide)
  · rfl

/-- The characters of a decimal literal: the digits `run`, behind a hyphen if it is `negative`.
-/
def decimalLiteral (negative : Bool) (run : List Char) : List Char :=
  if negative then '-' :: run else run

/-- The sign and the digits of a `decimalLiteral` are found again. -/
theorem takeSign_decimalLiteral (negative : Bool) {run : List Char}
    (h : ∀ c ∈ run, c.isDigit = true) :
    takeSign ((decimalLiteral negative run).dropWhile Text.isAsciiBlank) = (negative, run) := by
  cases negative with
  | true => rfl
  | false =>
      cases run with
      | nil => rfl
      | cons c cs =>
          exact takeSign_of_toNat (toNat_of_isDigit (h c List.mem_cons_self)).1 cs

/-- A run of at most `maxDigits` digits is read to its end. -/
theorem readDecimal_decimalLiteral (negative : Bool) {run : List Char} (hne : run ≠ [])
    (h : ∀ c ∈ run, c.isDigit = true) (hlength : run.length ≤ maxDigits) :
    readDecimal (decimalLiteral negative run) =
      .value (signed negative (Nat.ofDigitChars 10 run 0)) := by
  have hin : ∀ c ∈ run, inRun 10 c = true := fun c hc => by
    rw [inRun, digit?_of_isDigit (h c hc), Option.isSome_some, Bool.or_true]
  have htake : run.takeWhile (inRun 10) = run := List.takeWhile_eq_self_iff.2 hin
  have hdrop : run.dropWhile (inRun 10) = [] := List.dropWhile_eq_nil_iff.2 hin
  have hspaced : wellSpaced false run = true := by
    cases run with
    | nil => exact absurd rfl hne
    | cons c cs =>
        rw [wellSpaced, if_neg (ne_of_isDigit (h c List.mem_cons_self) rfl)]
        exact wellSpaced_of_forall fun d hd =>
          ne_of_isDigit (h d (List.mem_cons_of_mem c hd)) rfl
  simp only [readDecimal, takeSign_decimalLiteral negative h, htake, hdrop, hspaced,
    runDigits_of_isDigit h, List.length_map, Nat.not_lt.2 hlength, ofDigits, List.foldl_map,
    Bool.not_true, Bool.false_eq_true, if_false, List.all_nil, if_true]
  rfl

/-! ### Written numbers -/

theorem isDigit_of_mem_digits (n : Nat) : ∀ c ∈ Nat.toDigits 10 n, c.isDigit = true :=
  fun _ => Nat.isDigit_of_mem_toDigits (by decide) (by decide)

/-- The text of `decimal` is the `decimalLiteral` of the sign and the digits of the number. -/
theorem toList_decimal (n : Int) :
    (decimal n).toList = decimalLiteral (decide (n < 0)) (Nat.toDigits 10 n.natAbs) := by
  simp [decimal, decimalLiteral]

/-- A number below `10 ^ k` has at most `k` digits. -/
theorem length_digits_le {n k : Nat} (hk : 0 < k) (h : n < Nat.pow 10 k) :
    (Nat.toDigits 10 n).length ≤ k :=
  (Nat.length_toDigits_le_iff (by decide) hk).2 h

/-- An integer that is `writable` is read back from its characters. -/
theorem readDecimal_decimal {n : Int} (h : writable n = true) :
    readDecimal (decimal n).toList = .value n := by
  have hlength := length_digits_le (k := maxDigits) (by decide) (of_decide_eq_true h)
  have hsigned : signed (decide (n < 0)) n.natAbs = n := by
    unfold signed
    split
    · rename_i hneg
      have hlt : n < 0 := of_decide_eq_true hneg
      omega
    · rename_i hneg
      have hle : ¬ n < 0 := fun hlt => hneg (decide_eq_true hlt)
      omega
  rw [toList_decimal, readDecimal_decimalLiteral _ Nat.toDigits_ne_nil
    (isDigit_of_mem_digits _) hlength, Nat.ofDigitChars_toDigits (by decide) (by decide), hsigned]

theorem mem_decimal {n : Int} {c : Char} (h : c ∈ (decimal n).toList) :
    c = '-' ∨ c.isDigit = true := by
  rw [toList_decimal, decimalLiteral] at h
  split at h
  · rcases List.mem_cons.1 h with hc | hc
    · exact .inl hc
    · exact .inr (isDigit_of_mem_digits _ c hc)
  · exact .inr (isDigit_of_mem_digits _ c h)

theorem toNat_of_mem_decimal {n : Int} {c : Char} (h : c ∈ (decimal n).toList) :
    0x21 ≤ c.toNat ∧ c.toNat < 0x80 := by
  rcases mem_decimal h with rfl | hc
  · decide
  · have hbounds := toNat_of_isDigit hc
    omega

/-- In the text of `decimal` there are neither blanks nor foreign digits to be replaced. -/
theorem plainNumeral_decimal (n : Int) : Text.plainNumeral (decimal n) = (decimal n).toList := by
  have hplain := plainNumeral_of_forall fun c hc => (toNat_of_mem_decimal (n := n) hc).2
  rwa [String.ofList_toList] at hplain

/-- What `decimal` writes is read back by `parseDecimal`. -/
theorem parseDecimal_decimal {n : Int} (h : writable n = true) :
    parseDecimal (decimal n) = .ok n := by
  rw [parseDecimal, plainNumeral_decimal, readDecimal_decimal h]

/-- It is also read back by `parse`, where base marks are admitted. -/
theorem parse_decimal {n : Int} (h : writable n = true) : parse (decimal n) = .ok n := by
  have htrim : Text.trim Text.isBlank (decimal n).toList = (decimal n).toList :=
    trim_of_forall fun c hc => isBlank_of_toNat (toNat_of_mem_decimal hc)
  simp only [parse, htrim, String.ofList_toList, plainNumeral_decimal, readDecimal_decimal h]

theorem not_mem_decimal {n : Int} {c : Char} (hminus : c ≠ '-') (hdigit : c.isDigit = false) :
    c ∉ (decimal n).toList := by
  intro h
  rcases mem_decimal h with rfl | hc
  · exact hminus rfl
  · rw [hc] at hdigit
    cases hdigit

/-- What `decimal` writes has a digit, so a text without digits is no number. -/
theorem decimal_ne {n : Int} {text : String} (h : text.toList.any Char.isDigit = false) :
    decimal n ≠ text := by
  rintro rfl
  obtain ⟨c, hc⟩ := List.exists_mem_of_ne_nil (Nat.toDigits 10 n.natAbs) Nat.toDigits_ne_nil
  have hmem : c ∈ (decimal n).toList := by
    rw [toList_decimal, decimalLiteral]
    split
    · exact List.mem_cons_of_mem _ hc
    · exact hc
  exact List.any_eq_false.1 h c hmem (isDigit_of_mem_digits _ c hc)

end Numeral

/-! ### Command lines -/

namespace CommandLine

/-- A word that does not begin with a hyphen is `plain`. -/
theorem classify_of_head? {arg : String} (h : arg.toList.head? ≠ some '-') :
    classify arg = .ok (.plain arg) := by
  unfold classify
  split
  · rfl
  · rename_i heq
    rw [heq] at h
    exact absurd rfl h
  · rfl

theorem isNegativeNumber_of_isDigit {run : List Char} (hne : run ≠ [])
    (h : ∀ c ∈ run, c.isDigit = true) : isNegativeNumber ('-' :: run) = true := by
  have hdigit : ∀ c ∈ run, (Text.decimalDigit? c).isSome = true := by
    intro c hc
    obtain ⟨hlow, hhigh⟩ := Numeral.toNat_of_isDigit (h c hc)
    have hzero : (decide (0x30 ≤ c.toNat) && decide (c.toNat < 0x30 + 10)) = true := by
      simp only [Bool.and_eq_true, decide_eq_true_eq]
      omega
    rw [Text.decimalDigit?, Option.isSome_map, List.find?_isSome]
    exact ⟨0x30, by decide, hzero⟩
  have htake : run.takeWhile (fun c => (Text.decimalDigit? c).isSome) = run :=
    List.takeWhile_eq_self_iff.2 hdigit
  have hdrop : run.dropWhile (fun c => (Text.decimalDigit? c).isSome) = [] :=
    List.dropWhile_eq_nil_iff.2 hdigit
  simp [isNegativeNumber, htake, hdrop, hne]

/-- A negative number is `plain` in spite of its hyphen. -/
theorem classify_negative {run : List Char} (hne : run ≠ []) (h : ∀ c ∈ run, c.isDigit = true) :
    classify (String.ofList ('-' :: run)) = .ok (.plain (String.ofList ('-' :: run))) := by
  have hnumber := isNegativeNumber_of_isDigit hne h
  have hlist : (String.ofList ('-' :: run)).toList = '-' :: run := String.toList_ofList
  have hcut : Text.cut? (String.ofList ('-' :: run)) "=" = none := by
    refine Text.cut?_eq_none rfl ?_
    rw [hlist]
    intro hmem
    rcases List.mem_cons.1 hmem with heq | hmem
    · cases heq
    · exact absurd (h '=' hmem) (by decide)
  cases run with
  | nil => exact absurd rfl hne
  | cons c cs =>
      have hc : c.isDigit = true := h c List.mem_cons_self
      -- no option has a digit behind its hyphen
      have hlookup : spellings.lookup (String.ofList ('-' :: c :: cs)) = none := by
        have hsecond : ∀ x ∈ Assoc.names spellings,
            x.toList[1]? = some 'h' ∨ x.toList[1]? = some '-' := by
          decide
        rw [Assoc.lookup_eq_none_iff]
        intro hmem
        have hsome := hsecond _ hmem
        rw [hlist, List.getElem?_cons_succ, List.getElem?_cons_zero] at hsome
        rcases hsome with hsome | hsome <;> cases hsome <;> cases hc
      have hword : classifyShortened (String.ofList ('-' :: c :: cs)) =
          .ok (.plain (String.ofList ('-' :: c :: cs))) := by
        unfold classifyShortened
        simp only [hlist, hnumber, Bool.true_or, if_true]
        split
        · rename_i heq
          cases heq
          cases hc
        · rename_i heq
          cases heq
          cases hc
        · rfl
      unfold classify
      simp only [hlist, hlookup, splitValue, hcut, hword]

/-- So every text of `decimal` is a plain word of a command line. -/
theorem classify_decimal (n : Int) :
    classify (Numeral.decimal n) = .ok (.plain (Numeral.decimal n)) := by
  have hdigits := Numeral.isDigit_of_mem_digits n.natAbs
  by_cases hneg : n < 0
  · have htext : Numeral.decimal n = String.ofList ('-' :: Nat.toDigits 10 n.natAbs) := by
      rw [Numeral.decimal, if_pos hneg]
    rw [htext]
    exact classify_negative Nat.toDigits_ne_nil hdigits
  · refine classify_of_head? ?_
    rw [Numeral.toList_decimal, decide_eq_false hneg, Numeral.decimalLiteral,
      if_neg Bool.false_ne_true]
    intro hhead
    exact absurd (hdigits '-' (List.mem_of_head? hhead)) (by decide)

end CommandLine

end BusScript
