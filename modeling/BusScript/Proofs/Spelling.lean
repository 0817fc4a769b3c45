import BusScript.Proofs.Arithmetic
import Mathlib.Tactic.IntervalCases

/-!
# Spellings of integers

Integers come in many spellings: with a sign or without, behind zeros, with underscores
between digits, with a base mark, among blanks. `SpellsDecimal` and `SpellsPrefixed` are the
grammar of the two kinds of literals, each with the integer that is meant. They are stated
on the digits of the integer, not on how a text is searched for them.

* `parse_spellsDecimal`, `parse_spellsPrefixed` — every spelling is read as the integer that
  is meant;
* `spellsPrefixed_of_readPrefixed?` — nothing is read behind a base mark but such a spelling.

A text is read as a decimal literal first, and only where that fails as one with a base
mark. The two grammars have no text in common (`readDecimal_of_mark`), so that the second
attempt never gives another meaning to what was read at the first.

Digits of every script are read as those of ASCII (`Text.plainNumeral`), and this goes as
far as the zero of a base mark.
-/

namespace BusScript.Numeral

/-! ### Digits -/

/-- The character `c` is the digit of the value `d`, in either case. -/
structure DigitChar (base : Nat) (c : Char) (d : Nat) : Prop where
  lt : d < base
  char : c = Nat.digitChar d ∨ c = (Nat.digitChar d).toUpper

/-- A smaller `base` has fewer digits, and they are the same. -/
theorem digit?_eq_some_iff {base : Nat} {c : Char} {d : Nat} :
    digit? base c = some d ↔ d < base ∧ digit? 16 c = some d := by
  simp only [digit?]
  split
  · grind
  · split
    · grind
    · split <;> grind

theorem digit?_digitChar : ∀ d < 16,
    digit? 16 (Nat.digitChar d) = some d ∧ digit? 16 (Nat.digitChar d).toUpper = some d := by
  decide

theorem char_of_digit? {c : Char} {d : Nat} (h : digit? 16 c = some d) :
    c = Nat.digitChar d ∨ c = (Nat.digitChar d).toUpper := by
  have hc : c = Char.ofNat c.toNat := (Char.ofNat_toNat c).symm
  have hrange := toNat_of_digit? (c := c) (by rw [h]; rfl)
  generalize c.toNat = n at hc hrange
  subst hc
  obtain ⟨hlow, hhigh, -⟩ := hrange
  interval_cases n <;> cases h <;> decide

variable {base : Nat}

/-- What `digit?` reads are the characters of `DigitChar`. -/
theorem digit?_eq_some_iff_digitChar (hbase : base ≤ 16) {c : Char} {d : Nat} :
    digit? base c = some d ↔ DigitChar base c d := by
  rw [digit?_eq_some_iff]
  constructor
  · rintro ⟨hlt, h⟩
    exact ⟨hlt, char_of_digit? h⟩
  · rintro ⟨hlt, hchar⟩
    refine ⟨hlt, ?_⟩
    have hd := digit?_digitChar d (by omega)
    rcases hchar with rfl | rfl
    · exact hd.1
    · exact hd.2

theorem digit?_underscore (base : Nat) : digit? base '_' = none := by
  cases h : digit? base '_' with
  | none => rfl
  | some d => exact absurd (digit?_eq_some_iff.1 h).2 (by simp [show digit? 16 '_' = none from rfl])

/-- The characters that `inRun` admits are ASCII, and no blanks. -/
theorem toNat_of_inRun {c : Char} (h : inRun base c = true) :
    0x21 ≤ c.toNat ∧ c.toNat < 0x80 := by
  rw [inRun, Bool.or_eq_true, decide_eq_true_eq] at h
  rcases h with rfl | h
  · decide
  · obtain ⟨d, hd⟩ := Option.isSome_iff_exists.1 h
    have hrange := toNat_of_digit? (c := c) (by rw [(digit?_eq_some_iff.1 hd).2]; rfl)
    omega

/-! ### Runs of digits -/

/-- Digits one after the other, at most one underscore between two of them: the characters, and
the values `DigitChar` gives them. -/
inductive Run (base : Nat) : List Char → List Nat → Prop
  | digit {c : Char} {d : Nat} (h : DigitChar base c d) : Run base [c] [d]
  | next {c : Char} {d : Nat} {cs : List Char} {ds : List Nat} (h : DigitChar base c d)
      (rest : Run base cs ds) : Run base (c :: cs) (d :: ds)
  | spaced {c : Char} {d : Nat} {cs : List Char} {ds : List Nat} (h : DigitChar base c d)
      (rest : Run base cs ds) : Run base (c :: '_' :: cs) (d :: ds)

variable {run : List Char} {ds : List Nat}

theorem DigitChar.ne_underscore (hbase : base ≤ 16) {c : Char} {d : Nat}
    (h : DigitChar base c d) : c ≠ '_' := by
  rintro rfl
  have hsome := (digit?_eq_some_iff_digitChar hbase).2 h
  rw [digit?_underscore] at hsome
  cases hsome

theorem Run.wellSpaced (hbase : base ≤ 16) (h : Run base run ds) (afterDigit : Bool) :
    Numeral.wellSpaced afterDigit run = true := by
  induction h generalizing afterDigit with
  | digit hc => rw [Numeral.wellSpaced, if_neg (hc.ne_underscore hbase)]; rfl
  | next hc _ ih => rw [Numeral.wellSpaced, if_neg (hc.ne_underscore hbase), ih]
  | spaced hc _ ih =>
      rw [Numeral.wellSpaced, if_neg (hc.ne_underscore hbase), Numeral.wellSpaced, if_pos rfl, ih]
      rfl

theorem Run.runDigits (hbase : base ≤ 16) (h : Run base run ds) :
    Numeral.runDigits base run = ds := by
  induction h with
  | digit hc => exact List.filterMap_cons_some ((digit?_eq_some_iff_digitChar hbase).2 hc)
  | next hc _ ih =>
      rw [Numeral.runDigits, List.filterMap_cons_some ((digit?_eq_some_iff_digitChar hbase).2 hc)]
      exact congrArg _ ih
  | spaced hc _ ih =>
      rw [Numeral.runDigits, List.filterMap_cons_some ((digit?_eq_some_iff_digitChar hbase).2 hc),
        List.filterMap_cons_none (digit?_underscore base)]
      exact congrArg _ ih

theorem inRun_of_digitChar (hbase : base ≤ 16) {c : Char} {d : Nat} (h : DigitChar base c d) :
    inRun base c = true := by
  rw [inRun, (digit?_eq_some_iff_digitChar hbase).2 h, Option.isSome_some, Bool.or_true]

theorem Run.inRun (hbase : base ≤ 16) (h : Run base run ds) :
    ∀ c ∈ run, Numeral.inRun base c = true := by
  have hunderscore : Numeral.inRun base '_' = true := rfl
  induction h with
  | digit hc => simpa using inRun_of_digitChar hbase hc
  | next hc _ ih => simpa using ⟨inRun_of_digitChar hbase hc, ih⟩
  | spaced hc _ ih => simpa [hunderscore] using ⟨inRun_of_digitChar hbase hc, ih⟩

theorem Run.lt (h : Run base run ds) : ∀ d ∈ ds, d < base := by
  induction h with
  | digit hc => simpa using hc.lt
  | next hc _ ih => simpa using ⟨hc.lt, ih⟩
  | spaced hc _ ih => simpa using ⟨hc.lt, ih⟩

/-- The first character of a `Run` is a digit. -/
theorem Run.eq_cons (h : Run base run ds) :
    ∃ c cs d, run = c :: cs ∧ DigitChar base c d := by
  cases h with
  | digit hc => exact ⟨_, _, _, rfl, hc⟩
  | next hc _ => exact ⟨_, _, _, rfl, hc⟩
  | spaced hc _ => exact ⟨_, _, _, rfl, hc⟩

theorem digitChar_of_inRun (hbase : base ≤ 16) {c : Char} (h : Numeral.inRun base c = true)
    (hc : c ≠ '_') : ∃ d, digit? base c = some d ∧ DigitChar base c d := by
  rw [Numeral.inRun, decide_eq_false hc, Bool.false_or] at h
  obtain ⟨d, hd⟩ := Option.isSome_iff_exists.1 h
  exact ⟨d, hd, (digit?_eq_some_iff_digitChar hbase).1 hd⟩

/-- What `wellSpaced` accepts as a run is one. Behind a digit, what is accepted continues a run.
-/
theorem run_of_wellSpaced (hbase : base ≤ 16) (hin : ∀ c ∈ run, inRun base c = true) :
    (wellSpaced false run = true → Run base run (runDigits base run)) ∧
    (wellSpaced true run = true → ∀ c d, DigitChar base c d →
      Run base (c :: run) (d :: runDigits base run)) := by
  induction run with
  | nil => exact ⟨fun h => (by cases h), fun _ c d hd => .digit hd⟩
  | cons e es ih =>
      obtain ⟨ihFront, ihBehind⟩ := ih fun c hc => hin c (List.mem_cons_of_mem e hc)
      by_cases he : e = '_'
      · subst he
        have hdigits : runDigits base ('_' :: es) = runDigits base es :=
          List.filterMap_cons_none (digit?_underscore base)
        refine ⟨fun h => (by cases h), fun h c d hd => ?_⟩
        rw [hdigits]
        exact .spaced hd (ihFront (by simpa [wellSpaced] using h))
      · obtain ⟨d, hsome, hd⟩ := digitChar_of_inRun hbase (hin e List.mem_cons_self) he
        have hdigits : runDigits base (e :: es) = d :: runDigits base es :=
          List.filterMap_cons_some hsome
        simp only [wellSpaced, he, if_false, hdigits]
        exact ⟨fun h => ihBehind h e d hd, fun h c' d' hd' => .next hd' (ihBehind h e d hd)⟩

/-! ### Digits of a number -/

/-- The digits `ds`, the most significant one first, are those of the number `n`, behind any
number of zeros. -/
def Positional (base : Nat) (ds : List Nat) (n : Nat) : Prop :=
  ∃ zeros, ds = List.replicate zeros 0 ++ (Nat.digits base n).reverse

theorem ofDigits_eq (base : Nat) (ds : List Nat) :
    ofDigits base ds = Nat.ofDigits base ds.reverse := by
  rw [ofDigits, List.foldl_eq_foldr_reverse, Nat.ofDigits_eq_foldr]
  simp only [Nat.add_comm, Nat.cast_id]

theorem Positional.value {n : Nat} (h : Positional base ds n) : ofDigits base ds = n := by
  obtain ⟨zeros, rfl⟩ := h
  rw [ofDigits_eq, List.reverse_append, List.reverse_reverse, List.reverse_replicate,
    Nat.ofDigits_append_replicate_zero, Nat.ofDigits_digits]

/-- Whatever digits there are, they are those of the number `ofDigits` that they denote. -/
theorem positional_ofDigits (hbase : 1 < base) (hds : ∀ d ∈ ds, d < base) :
    Positional base ds (ofDigits base ds) := by
  induction ds with
  | nil => exact ⟨0, by simp [ofDigits]⟩
  | cons d ds ih =>
      by_cases hd : d = 0
      · subst hd
        obtain ⟨zeros, hzeros⟩ := ih fun x hx => hds x (List.mem_cons_of_mem _ hx)
        have hvalue : ofDigits base (0 :: ds) = ofDigits base ds := by simp [ofDigits]
        refine ⟨zeros + 1, ?_⟩
        rw [hvalue, List.replicate_succ, List.cons_append, ← hzeros]
      · have hdigits := Nat.digits_ofDigits base hbase (d :: ds).reverse
          (fun x hx => hds x (List.mem_reverse.1 hx)) (fun hne => by simpa using hd)
        refine ⟨0, ?_⟩
        rw [ofDigits_eq, hdigits, List.reverse_reverse, List.replicate_zero, List.nil_append]

/-! ### Literals -/

/-- What may stand in front of the integer `n`. -/
inductive SignOf (n : Int) : List Char → Prop
  | absent (h : 0 ≤ n) : SignOf n []
  | plus (h : 0 ≤ n) : SignOf n ['+']
  | minus (h : n ≤ 0) : SignOf n ['-']

/-- The letters that mark a base, as `markBase?` reads them. -/
inductive Mark : Nat → Char → Prop
  | hex : Mark 16 'x'
  | hexUpper : Mark 16 'X'
  | octal : Mark 8 'o'
  | octalUpper : Mark 8 'O'
  | binary : Mark 2 'b'
  | binaryUpper : Mark 2 'B'

/-- The integer `n` is spelled as a decimal literal, of at most `maxDigits` digits. -/
inductive SpellsDecimal (n : Int) : List Char → Prop
  | mk {sign run : List Char} {ds : List Nat} (sign_n : SignOf n sign) (digits : Run 10 run ds)
      (value : Positional 10 ds n.natAbs) (short : ds.length ≤ maxDigits) :
      SpellsDecimal n (sign ++ run)

/-- The integer `n` is spelled with a base mark. An underscore may stand behind the mark. -/
inductive SpellsPrefixed (n : Int) : List Char → Prop
  | mk {sign gap run : List Char} {mark : Char} {base : Nat} {ds : List Nat}
      (sign_n : SignOf n sign) (mark_base : Mark base mark) (gap_eq : gap = [] ∨ gap = ['_'])
      (digits : Run base run ds) (value : Positional base ds n.natAbs) :
      SpellsPrefixed n (sign ++ '0' :: mark :: (gap ++ run))

variable {n : Int} {c : Char} {cs sign before after : List Char}

theorem Mark.le (h : Mark base c) : base ≤ 16 := by
  cases h <;> decide

theorem Mark.one_lt (h : Mark base c) : 1 < base := by
  cases h <;> decide

theorem markBase?_eq_some_iff : markBase? c = some base ↔ Mark base c := by
  constructor
  · intro h
    simp only [markBase?, Bool.or_eq_true, decide_eq_true_eq] at h
    split at h
    · rename_i hc
      cases h
      rcases hc with rfl | rfl <;> constructor
    · split at h
      · rename_i hc
        cases h
        rcases hc with rfl | rfl <;> constructor
      · split at h
        · rename_i hc
          cases h
          rcases hc with rfl | rfl <;> constructor
        · cases h
  · intro h
    cases h <;> rfl

/-! ### Spellings are read -/

/-- The sign of an integer is taken off by `takeSign`, and it is the right one. -/
theorem SignOf.takeSign (h : SignOf n sign) (hc : 0x30 ≤ c.toNat) (body : List Char) :
    ∃ negative, Numeral.takeSign ((sign ++ c :: body).dropWhile Text.isAsciiBlank) =
      (negative, c :: body) ∧ signed negative n.natAbs = n := by
  cases h with
  | absent hn =>
      refine ⟨false, ?_, by simp only [signed, Bool.false_eq_true, if_false]; omega⟩
      exact takeSign_of_toNat hc body
  | plus hn => exact ⟨false, rfl, by simp only [signed, Bool.false_eq_true, if_false]; omega⟩
  | minus hn => exact ⟨true, rfl, by simp only [signed, if_true]; omega⟩

/-- A `Run` is read to its end, and all of its digits count. -/
theorem Run.scan (hbase : base ≤ 16) (h : Run base run ds) :
    run.takeWhile (Numeral.inRun base) = run ∧ run.dropWhile (Numeral.inRun base) = [] :=
  ⟨List.takeWhile_eq_self_iff.2 (h.inRun hbase), List.dropWhile_eq_nil_iff.2 (h.inRun hbase)⟩

theorem DigitChar.toNat (hbase : base ≤ 16) {d : Nat} (h : DigitChar base c d) :
    0x30 ≤ c.toNat := by
  have hsome := (digit?_eq_some_iff.1 ((digit?_eq_some_iff_digitChar hbase).2 h)).2
  exact (toNat_of_digit? (c := c) (by rw [hsome]; rfl)).1

/-- What `SpellsDecimal` spells is read as a decimal literal. -/
theorem readDecimal_of_spellsDecimal (h : SpellsDecimal n cs) : readDecimal cs = .value n := by
  obtain ⟨hsign, hrun, hvalue, hshort⟩ := h
  obtain ⟨c, body, d, rfl, hc⟩ := hrun.eq_cons
  obtain ⟨negative, htake, hsigned⟩ := hsign.takeSign (hc.toNat (by decide)) body
  obtain ⟨hall, hrest⟩ := hrun.scan (by decide)
  simp only [readDecimal, htake, hall, hrest, hrun.wellSpaced (by decide),
    hrun.runDigits (by decide), Nat.not_lt.2 hshort, hvalue.value, hsigned, Bool.not_true,
    Bool.false_eq_true, if_false, List.all_nil, if_true]

/-- With a base `Mark`, a text is no decimal literal, whatever follows. -/
theorem readDecimal_of_mark (hsign : SignOf n sign) (hmark : Mark base c) (rest : List Char) :
    readDecimal (sign ++ '0' :: c :: rest) = .malformed := by
  cases hsign <;> cases hmark <;> rfl

/-- Behind a base `Mark`, the digits of that base are looked for. -/
theorem readPrefixed?_of_mark (hsign : SignOf n sign) (hmark : Mark base c) (rest : List Char)
    (hspaced : wellSpaced false ((afterMark rest).takeWhile (inRun base)) = true)
    (hblank : ((afterMark rest).dropWhile (inRun base)).all Text.isAsciiBlank = true) :
    ∃ negative, signed negative n.natAbs = n ∧ readPrefixed? (sign ++ '0' :: c :: rest) =
      some (signed negative
        (ofDigits base (runDigits base ((afterMark rest).takeWhile (inRun base))))) := by
  obtain ⟨negative, htake, hsigned⟩ := hsign.takeSign (c := '0') (by decide) (c :: rest)
  refine ⟨negative, hsigned, ?_⟩
  simp only [readPrefixed?, htake, markBase?_eq_some_iff.2 hmark, hspaced, hblank, Bool.and_self,
    if_true, Option.bind_eq_bind, Option.bind_some]

theorem afterMark_gap {gap : List Char} (hgap : gap = [] ∨ gap = ['_']) (hbase : base ≤ 16)
    (hrun : Run base run ds) : afterMark (gap ++ run) = run := by
  rcases hgap with rfl | rfl
  · obtain ⟨c, body, d, rfl, hc⟩ := hrun.eq_cons
    rw [List.nil_append]
    unfold afterMark
    split
    · rename_i heq
      cases heq
      exact absurd rfl (hc.ne_underscore hbase)
    · rfl
  · rfl

theorem readPrefixed?_of_spellsPrefixed (h : SpellsPrefixed n cs) : readPrefixed? cs = some n := by
  obtain ⟨hsign, hmark, hgap, hrun, hvalue⟩ := h
  obtain ⟨hall, hrest⟩ := hrun.scan hmark.le
  have hafter := afterMark_gap hgap hmark.le hrun
  obtain ⟨negative, hsigned, hread⟩ := readPrefixed?_of_mark hsign hmark _
    (by rw [hafter, hall, hrun.wellSpaced hmark.le]) (by rw [hafter, hrest]; rfl)
  rw [hread, hafter, hall, hrun.runDigits hmark.le, hvalue.value, hsigned]

theorem readDecimal_of_spellsPrefixed (h : SpellsPrefixed n cs) :
    readDecimal cs = .malformed := by
  obtain ⟨hsign, hmark, -, -, -⟩ := h
  exact readDecimal_of_mark hsign hmark _

/-! ### Among blanks -/

theorem SignOf.toNat (h : SignOf n sign) : ∀ c ∈ sign, 0x21 ≤ c.toNat ∧ c.toNat < 0x80 := by
  cases h <;> simp

theorem SpellsDecimal.toNat (h : SpellsDecimal n cs) :
    ∀ c ∈ cs, 0x21 ≤ c.toNat ∧ c.toNat < 0x80 := by
  obtain ⟨hsign, hrun, -, -⟩ := h
  intro c hc
  rcases List.mem_append.1 hc with hc | hc
  · exact hsign.toNat c hc
  · exact toNat_of_inRun (hrun.inRun (by decide) c hc)

theorem SpellsPrefixed.toNat (h : SpellsPrefixed n cs) :
    ∀ c ∈ cs, 0x21 ≤ c.toNat ∧ c.toNat < 0x80 := by
  obtain ⟨hsign, hmark, hgap, hrun, -⟩ := h
  intro c hc
  simp only [List.mem_append, List.mem_cons] at hc
  rcases hc with hc | rfl | rfl | hc | hc
  · exact hsign.toNat c hc
  · decide
  · cases hmark <;> decide
  · rcases hgap with rfl | rfl
    · cases hc
    · rw [List.mem_singleton.1 hc]
      decide
  · exact toNat_of_inRun (hrun.inRun hmark.le c hc)

/-- A text without the blanks (`isBlank`) on its ends. -/
def strip (text : String) : String := String.ofList (Text.trim Text.isBlank text.toList)

/-- Blanks on both sides are removed by `trim`. -/
theorem trim_append (hbefore : ∀ c ∈ before, Text.isBlank c = true)
    (hafter : ∀ c ∈ after, Text.isBlank c = true) (hcs : ∀ c ∈ cs, Text.isBlank c = false) :
    Text.trim Text.isBlank (before ++ cs ++ after) = cs := by
  have hafter' : ∀ c ∈ after.reverse, Text.isBlank c = true :=
    fun c hc => hafter c (List.mem_reverse.1 hc)
  rw [Text.trim, List.append_assoc, List.dropWhile_append_of_pos hbefore]
  cases cs with
  | nil => simp [List.dropWhile_eq_nil_iff.2 hafter]
  | cons c cs =>
      have htrim := trim_of_forall hcs
      have hc := hcs c List.mem_cons_self
      rw [Text.trim, List.dropWhile_cons, hc, if_neg Bool.false_ne_true] at htrim
      rw [List.cons_append, List.dropWhile_cons, hc, if_neg Bool.false_ne_true,
        ← List.cons_append, List.reverse_append, List.dropWhile_append_of_pos hafter', htrim]

theorem plainNumeral_strip (hbefore : ∀ c ∈ before, Text.isBlank c = true)
    (hafter : ∀ c ∈ after, Text.isBlank c = true)
    (hcs : ∀ c ∈ cs, 0x21 ≤ c.toNat ∧ c.toNat < 0x80) :
    Text.plainNumeral (strip (String.ofList (before ++ cs ++ after))) = cs := by
  rw [strip, String.toList_ofList,
    trim_append hbefore hafter fun c hc => isBlank_of_toNat (hcs c hc)]
  exact plainNumeral_of_forall fun c hc => (hcs c hc).2

/-- An integer is read by `readDecimal` or, where that finds no literal, by `readPrefixed?`. -/
theorem parse_eq_ok_iff {text : String} :
    parse text = .ok n ↔
      readDecimal (Text.plainNumeral (strip text)) = .value n ∨
      readDecimal (Text.plainNumeral (strip text)) = .malformed ∧
        readPrefixed? (Text.plainNumeral (strip text)) = some n := by
  rw [parse, ← strip]
  cases readDecimal (Text.plainNumeral (strip text)) with
  | value m => simp
  | tooLong digits => simp
  | malformed => cases readPrefixed? (Text.plainNumeral (strip text)) <;> simp

theorem parse_spellsDecimal (h : SpellsDecimal n cs)
    (hbefore : ∀ c ∈ before, Text.isBlank c = true)
    (hafter : ∀ c ∈ after, Text.isBlank c = true) :
    parse (String.ofList (before ++ cs ++ after)) = .ok n := by
  rw [parse_eq_ok_iff, plainNumeral_strip hbefore hafter h.toNat]
  exact .inl (readDecimal_of_spellsDecimal h)

theorem parse_spellsPrefixed (h : SpellsPrefixed n cs)
    (hbefore : ∀ c ∈ before, Text.isBlank c = true)
    (hafter : ∀ c ∈ after, Text.isBlank c = true) :
    parse (String.ofList (before ++ cs ++ after)) = .ok n := by
  rw [parse_eq_ok_iff, plainNumeral_strip hbefore hafter h.toNat]
  exact .inr ⟨readDecimal_of_spellsPrefixed h, readPrefixed?_of_spellsPrefixed h⟩

/-! ### Nothing else is read behind a base mark -/

/-- What `takeSign` takes off is a sign of every integer that is signed accordingly. -/
theorem signOf_of_takeSign {negative : Bool} {body : List Char}
    (h : takeSign cs = (negative, body)) :
    ∃ sign, cs = sign ++ body ∧ ∀ k, SignOf (signed negative k) sign := by
  unfold takeSign at h
  split at h
  · cases h
    exact ⟨['-'], rfl, fun k => .minus (by simp [signed])⟩
  · cases h
    exact ⟨['+'], rfl, fun k => .plus (by simp [signed])⟩
  · cases h
    exact ⟨[], rfl, fun k => .absent (by simp [signed])⟩

theorem gap_of_afterMark (cs : List Char) :
    ∃ gap, (gap = [] ∨ gap = ['_']) ∧ cs = gap ++ afterMark cs := by
  unfold afterMark
  split
  · exact ⟨['_'], .inr rfl, rfl⟩
  · exact ⟨[], .inl rfl, rfl⟩

theorem natAbs_signed (negative : Bool) (k : Nat) : (signed negative k).natAbs = k := by
  cases negative <;> simp [signed]

/-- Behind a text that does not end with a blank there are no blanks. -/
theorem eq_nil_of_all_isAsciiBlank {tail : List Char}
    (hlast : ∀ c, (cs ++ tail).getLast? = some c → Text.isAsciiBlank c = false)
    (hblank : tail.all Text.isAsciiBlank = true) : tail = [] := by
  rcases List.eq_nil_or_concat tail with rfl | ⟨init, c, rfl⟩
  · rfl
  · have hc : Text.isAsciiBlank c = true := List.all_eq_true.1 hblank c (by simp)
    have hnot := hlast c (by simp [← List.append_assoc])
    rw [hc] at hnot
    cases hnot

/-- A text that neither begins nor ends with a blank is read by `readPrefixed?` only if it
spells the integer that is read. -/
theorem spellsPrefixed_of_readPrefixed?
    (hhead : ∀ c, cs.head? = some c → Text.isAsciiBlank c = false)
    (hlast : ∀ c, cs.getLast? = some c → Text.isAsciiBlank c = false)
    (h : readPrefixed? cs = some n) : SpellsPrefixed n cs := by
  have hdrop : cs.dropWhile Text.isAsciiBlank = cs := by
    cases cs with
    | nil => rfl
    | cons c cs => rw [List.dropWhile_cons, hhead c rfl, if_neg Bool.false_ne_true]
  rcases htake : takeSign cs with ⟨negative, body⟩
  obtain ⟨sign, rfl, hsign⟩ := signOf_of_takeSign htake
  simp only [readPrefixed?, hdrop, htake] at h
  split at h
  · rename_i mark rest
    obtain ⟨base, hmark, hread⟩ := Option.bind_eq_some_iff.1 h
    rw [markBase?_eq_some_iff] at hmark
    obtain ⟨gap, hgap, hrest⟩ := gap_of_afterMark rest
    generalize afterMark rest = run at hread hrest
    subst hrest
    split at hread
    · rename_i haccepted
      rw [Bool.and_eq_true] at haccepted
      obtain ⟨hspaced, hblank⟩ := haccepted
      -- nothing stands behind the run, since the text does not end with a blank
      have hend : ∀ c, (sign ++ '0' :: mark :: (gap ++ run.takeWhile (inRun base)) ++
          run.dropWhile (inRun base)).getLast? = some c → Text.isAsciiBlank c = false := by
        simpa [List.append_assoc, List.takeWhile_append_dropWhile] using hlast
      have hin := List.dropWhile_eq_nil_iff.1 (eq_nil_of_all_isAsciiBlank hend hblank)
      rw [List.takeWhile_eq_self_iff.2 hin] at hspaced hread
      cases hread
      have hrun := (run_of_wellSpaced hmark.le hin).1 hspaced
      refine .mk (hsign _) hmark hgap hrun ?_
      rw [natAbs_signed]
      exact positional_ofDigits hmark.one_lt hrun.lt
    · cases hread
  · cases h

/-! ### Other scripts -/

theorem lt_ten_of_decimalDigit? {d : Nat} (h : Text.decimalDigit? c = some d) : d < 10 := by
  obtain ⟨z, hfind, rfl⟩ := Option.map_eq_some_iff.1 h
  have hzero := List.find?_some hfind
  simp only [Bool.and_eq_true, decide_eq_true_eq] at hzero
  omega

/-- What is no blank does not become one by `plainNumeralChar`. -/
theorem isAsciiBlank_plainNumeralChar (h : Text.isBlank c = false) :
    Text.isAsciiBlank (Text.plainNumeralChar c) = false := by
  unfold Text.plainNumeralChar
  split
  · cases hc : Text.isAsciiBlank c with
    | false => rfl
    | true =>
        rw [Text.isBlank_of_isAsciiBlank hc] at h
        cases h
  · rw [h, if_neg Bool.false_ne_true]
    split
    · rename_i d hd
      have hdigits : ∀ d < 10, Text.isAsciiBlank (Nat.digitChar d) = false := by decide
      exact hdigits d (lt_ten_of_decimalDigit? hd)
    · rfl

theorem isBlank_of_head?_dropWhile (h : (cs.dropWhile Text.isBlank).head? = some c) :
    Text.isBlank c = false := by
  have hhead := List.head?_dropWhile_not Text.isBlank cs
  rw [h] at hhead
  exact hhead

theorem isBlank_of_getLast?_trim (h : (Text.trim Text.isBlank cs).getLast? = some c) :
    Text.isBlank c = false := by
  rw [Text.trim, List.getLast?_reverse] at h
  exact isBlank_of_head?_dropWhile h

theorem isBlank_of_head?_trim (h : (Text.trim Text.isBlank cs).head? = some c) :
    Text.isBlank c = false := by
  have hstart : Text.trim Text.isBlank cs <+: cs.dropWhile Text.isBlank := by
    rw [Text.trim, ← List.reverse_suffix, List.reverse_reverse]
    exact List.dropWhile_suffix _
  obtain ⟨rest, hrest⟩ := hstart
  have hhead : (cs.dropWhile Text.isBlank).head? = some c := by
    rw [← hrest, List.head?_append, h, Option.some_or]
  exact isBlank_of_head?_dropWhile hhead

theorem spellsPrefixed_of_fallback {text : String} {e : Error}
    (hdecimal : parseDecimal (strip text) = .error e) (h : parse text = .ok n) :
    SpellsPrefixed n (Text.plainNumeral (strip text)) := by
  have hchars : Text.plainNumeral (strip text) =
      (Text.trim Text.isBlank text.toList).map Text.plainNumeralChar := by
    rw [Text.plainNumeral, strip, String.toList_ofList]
  rcases parse_eq_ok_iff.1 h with hvalue | ⟨-, hmarked⟩
  · rw [parseDecimal, hvalue] at hdecimal
    cases hdecimal
  · refine spellsPrefixed_of_readPrefixed? (fun c hc => ?_) (fun c hc => ?_) hmarked
    · rw [hchars, List.head?_map] at hc
      obtain ⟨x, hx, rfl⟩ := Option.map_eq_some_iff.1 hc
      exact isAsciiBlank_plainNumeralChar (isBlank_of_head?_trim hx)
    · rw [hchars, List.getLast?_map] at hc
      obtain ⟨x, hx, rfl⟩ := Option.map_eq_some_iff.1 hc
      exact isAsciiBlank_plainNumeralChar (isBlank_of_getLast?_trim hx)

/-- What `parse` reads of a text, by its kind of literal. -/
structure Fallback (text : String) : Prop where
  /-- What `parseDecimal` reads stays. -/
  decimal : ∀ n, parseDecimal (strip text) = .ok n → parse text = .ok n
  /-- Without a decimal reading, the text in plain form is a literal with a base mark
  (`SpellsPrefixed`). -/
  marked : ∀ e n, parseDecimal (strip text) = .error e → parse text = .ok n →
    SpellsPrefixed n (Text.plainNumeral (strip text))
  /-- In ASCII, it is one as it stands. -/
  ascii : (∀ c ∈ (strip text).toList, c.toNat < 0x80) →
    ∀ e n, parseDecimal (strip text) = .error e → parse text = .ok n →
      SpellsPrefixed n (strip text).toList

theorem fallback (text : String) : Fallback text where
  decimal n h := by
    rw [parseDecimal] at h
    refine parse_eq_ok_iff.2 (.inl ?_)
    cases hread : readDecimal (Text.plainNumeral (strip text)) with
    | value m =>
        rw [hread] at h
        cases h
        rfl
    | tooLong digits =>
        rw [hread] at h
        cases h
    | malformed =>
        rw [hread] at h
        cases h
  marked _ _ := spellsPrefixed_of_fallback
  ascii hascii e n hdecimal h := by
    have hplain := plainNumeral_of_forall hascii
    rw [String.ofList_toList] at hplain
    rw [← hplain]
    exact spellsPrefixed_of_fallback hdecimal h

/-- **Integers are read however they are spelled.** The decimal text of an integer that is short
enough is read as that integer, and so is every other decimal spelling within the limit of
digits (`SpellsDecimal`), and every spelling with a base mark without a limit
(`SpellsPrefixed`), all of them also among blanks. A base mark gives no second meaning to a
decimal literal, and apart from these only literals with a base mark are read, in which digits
may be of any script (`Fallback`). -/
theorem spellings_read :
    (∀ n : Int, (Nat.digits 10 n.natAbs).length ≤ maxDigits → parse (decimal n) = .ok n) ∧
    (∀ (n : Int) (cs before after : List Char), SpellsDecimal n cs ∨ SpellsPrefixed n cs →
      (∀ c ∈ before, Text.isBlank c = true) → (∀ c ∈ after, Text.isBlank c = true) →
        parse (String.ofList (before ++ cs ++ after)) = .ok n) ∧
    ∀ text : String, Fallback text := by
  refine ⟨fun n h => parse_decimal (writable_iff.2 h), ?_, fallback⟩
  intro n cs before after hcs hbefore hafter
  rcases hcs with hcs | hcs
  · exact parse_spellsDecimal hcs hbefore hafter
  · exact parse_spellsPrefixed hcs hbefore hafter

/-- One integer in three spellings, among blanks of two scripts, and a text that is read with
a base mark only. -/
theorem spellings_read_negative :
    let spaced := ['-', '0', '0', '_', '2', '5', '5']
    let marked := ['-', '0', 'X', '_', '0', 'f', '_', 'F']
    parse (decimal (-255)) = .ok (-255) ∧
    (SpellsDecimal (-255) spaced ∧
      parse (String.ofList (['\t', '\u00a0'] ++ spaced ++ ['\n'])) = .ok (-255)) ∧
    (SpellsPrefixed (-255) marked ∧
      parse (String.ofList (['\t', '\u00a0'] ++ marked ++ ['\n'])) = .ok (-255)) ∧
    ∃ e, parseDecimal (strip " 0x10") = .error e ∧ parse " 0x10" = .ok 16 ∧
      SpellsPrefixed 16 (strip " 0x10").toList := by
  intro spaced marked
  have hblanks : ∀ c ∈ ['\t', '\u00a0'], Text.isBlank c = true := List.all_eq_true.1 (by decide)
  have hbreak : ∀ c ∈ ['\n'], Text.isBlank c = true := List.all_eq_true.1 (by decide)
  have hspaced : SpellsDecimal (-255) spaced := by
    have hrun : Run 10 ['0', '0', '_', '2', '5', '5'] [0, 0, 2, 5, 5] :=
      .next ⟨by decide, by decide⟩ (.spaced ⟨by decide, by decide⟩
        (.next ⟨by decide, by decide⟩ (.next ⟨by decide, by decide⟩
          (.digit ⟨by decide, by decide⟩))))
    exact .mk (.minus (by decide)) hrun ⟨2, by simp⟩ (by decide)
  have hmarked : SpellsPrefixed (-255) marked := by
    have hrun : Run 16 ['0', 'f', '_', 'F'] [0, 15, 15] :=
      .next ⟨by decide, by decide⟩ (.spaced ⟨by decide, by decide⟩
        (.digit ⟨by decide, by decide⟩))
    exact .mk (.minus (by decide)) .hexUpper (.inr rfl) hrun ⟨1, by simp⟩
  have hdecimal : parseDecimal (strip " 0x10") = .error (.malformed 10 "0x10") := by
    decide +kernel
  have hparse : parse " 0x10" = .ok 16 := by decide +kernel
  have hascii : (strip " 0x10").toList.all (·.toNat < 0x80) = true := by decide +kernel
  refine ⟨spellings_read.1 (-255) (by simp [maxDigits]),
    ⟨hspaced, spellings_read.2.1 _ _ _ _ (.inl hspaced) hblanks hbreak⟩,
    ⟨hmarked, spellings_read.2.1 _ _ _ _ (.inr hmarked) hblanks hbreak⟩,
    _, hdecimal, hparse, (spellings_read.2.2 " 0x10").ascii
      (fun c hc => of_decide_eq_true (List.all_eq_true.1 hascii c hc)) _ 16 hdecimal hparse⟩

/-- The zero of a base mark may be of another script. Such a text is read, and as it stands it
is no literal. -/
theorem not_spellsPrefixed_scriptZero :
    parseDecimal (strip "\u0660x10") = .error (.malformed 10 "\u0660x10") ∧
    parse "\u0660x10" = .ok 16 ∧
    ∀ n : Int, ¬ SpellsPrefixed n (strip "\u0660x10").toList := by
  refine ⟨by decide +kernel, by decide +kernel, fun n h => ?_⟩
  have hmem : '\u0660' ∈ (strip "\u0660x10").toList := by decide +kernel
  exact absurd (h.toNat _ hmem).2 (by decide)

end BusScript.Numeral
