import BusScript.CommandLine.Options

/-!
# The leftmost separator

A separator may have several characters and overlap with itself, as `aa` does in
`aaa`, so that it matters where the search for it stops. A cut is made around the
first place at which the separator stands: `leftmost_of_cutChars?` compares that
place with every other one, and `Leftmost` says it of the texts of a cut.

A field of a command line is cut twice, first at an equals sign and then at a colon
before it. What it consists of is determined by where these characters do not stand
(`FieldText.parse_eq_ok_iff`), and there is no field exactly if no colon comes first
(`FieldText.parse_eq_error_iff`).
-/

namespace BusScript

namespace Text

/-- The separator `sep` stands somewhere in the text `source`. -/
def Occurs (sep source : String) : Prop :=
  ∃ before after, source = before ++ sep ++ after

/-- The texts `left` and `right` are what stands on the sides of the leftmost `sep` in `source`.
-/
structure Leftmost (sep source left right : String) : Prop where
  /-- Nothing but `sep` is lost. -/
  source_eq : source = left ++ sep ++ right
  /-- Up to its end, `sep` stands nowhere else. -/
  final : ∀ before after, left ++ sep = before ++ sep ++ after → before = left ∧ after = ""
  /-- No `sep` in `source` stands further left. -/
  first : ∀ before after, source = before ++ sep ++ after → left.length ≤ before.length

variable {source sep left right : String}

/-- The search of `cutChars?` stops no later than at any place where the separator stands. -/
theorem leftmost_of_cutChars? {sep cs left right before after : List Char}
    (hcut : cutChars? sep cs = some (left, right)) (hcs : cs = before ++ sep ++ after) :
    left.length ≤ before.length := by
  induction cs generalizing left before with
  | nil =>
      obtain rfl : left = [] := by
        have happend := eq_append_of_cutChars? hcut
        simp only [List.nil_eq, List.append_eq_nil_iff] at happend
        exact happend.1.1
      exact Nat.zero_le _
  | cons c cs ih =>
      simp only [cutChars?] at hcut
      split at hcut
      · simp only [Option.some.injEq, Prod.mk.injEq] at hcut
        simp [← hcut.1]
      · rename_i hstart
        simp only [Option.map_eq_some_iff, Prod.mk.injEq] at hcut
        obtain ⟨⟨l, r⟩, hl, rfl, rfl⟩ := hcut
        cases before with
        | nil =>
            have hhere : sep.isPrefixOf (c :: cs) = true :=
              List.isPrefixOf_iff_prefix.2 ⟨after, hcs.symm⟩
            exact absurd hhere hstart
        | cons b before =>
            simp only [List.cons_append, List.cons.injEq] at hcs
            exact Nat.succ_le_succ (ih hl hcs.2)

theorem first_of_cut? (hcut : cut? source sep = some (left, right)) {before after : String}
    (hsource : source = before ++ sep ++ after) : left.length ≤ before.length := by
  obtain ⟨⟨l, r⟩, hchars, heq⟩ := Option.map_eq_some_iff.1 hcut
  cases heq
  have hlist : source.toList = before.toList ++ sep.toList ++ after.toList := by
    rw [hsource, String.toList_append, String.toList_append]
  rw [String.length_ofList, ← String.length_toList]
  exact leftmost_of_cutChars? hchars hlist

theorem source_eq_of_cut? (hcut : cut? source sep = some (left, right)) :
    source = left ++ sep ++ right := by
  obtain ⟨⟨l, r⟩, hchars, heq⟩ := Option.map_eq_some_iff.1 hcut
  cases heq
  apply String.toList_injective
  simpa using eq_append_of_cutChars? hchars

/-- What `cut?` finds is the `Leftmost` separator. -/
theorem leftmost_of_cut? (hcut : cut? source sep = some (left, right)) :
    Leftmost sep source left right := by
  have hsource := source_eq_of_cut? hcut
  refine ⟨hsource, fun before after hfinal => ?_, fun before after => first_of_cut? hcut⟩
  -- an earlier place up to the separator's end would be an earlier place in the text
  have hplace : source = before ++ sep ++ (after ++ right) := by
    rw [hsource, hfinal, String.append_assoc]
  have hle := first_of_cut? hcut hplace
  have hlength := congrArg String.length hfinal
  simp only [String.length_append] at hlength
  have hafter : after = "" := String.length_eq_zero_iff.1 (by omega)
  subst hafter
  rw [String.append_empty] at hfinal
  exact ⟨(String.append_left_inj sep).1 hfinal.symm, rfl⟩

/-- There is nothing to be found by `cut?` exactly if the separator does not occur. -/
theorem cut?_eq_none_iff : cut? source sep = none ↔ ¬ Occurs sep source := by
  rw [cut?, Option.map_eq_none_iff, cutChars?_eq_none_iff]
  refine not_congr ⟨?_, ?_⟩
  · rintro ⟨before, after, hchars⟩
    refine ⟨String.ofList before, String.ofList after, String.toList_injective ?_⟩
    simp [← hchars]
  · rintro ⟨before, after, rfl⟩
    exact ⟨before.toList, after.toList, by simp⟩

theorem cut_cases (source sep : String) :
    (¬ Occurs sep source ∧ cut source sep = ("", source)) ∨
      ∃ left right, cut source sep = (left, right) ∧ Leftmost sep source left right := by
  rw [cut]
  cases hcut : cut? source sep with
  | none => exact .inl ⟨cut?_eq_none_iff.1 hcut, rfl⟩
  | some parts => exact .inr ⟨parts.1, parts.2, rfl, leftmost_of_cut? hcut⟩

-- the first of two places that overlap
example : cut "xababa" "aba" = ("x", "ba") := by decide +kernel

end Text

namespace FieldText

/-- The field `f` is spelled by a text. The signs that divide it do not stand where they would
divide it earlier. -/
structure Spelled (f : FieldText) (text : String) : Prop where
  nameColon : ':' ∉ f.name.toList
  nameEquals : '=' ∉ f.name.toList
  typeEquals : '=' ∉ f.type.toList
  text_eq : text = f.name ++ ":" ++ f.type ++ "=" ++ f.value ∨
    '=' ∉ text.toList ∧ f.value = "" ∧ text = f.name ++ ":" ++ f.type

/-- Before each colon of `text` there is an equals sign. -/
def ColonsBehindEquals (text : String) : Prop :=
  ∀ before after, text = before ++ ":" ++ after → '=' ∈ before.toList

variable {text : String} {f : FieldText}

/-- What is cut at the equals sign: a `declaration` without one, and the `value`. -/
theorem declaration_cases (text : String) :
    ∃ declaration value, (Text.cut? text "=").getD (text, "") = (declaration, value) ∧
      '=' ∉ declaration.toList ∧
      (text = declaration ++ "=" ++ value ∨
        '=' ∉ text.toList ∧ value = "" ∧ text = declaration) := by
  cases hcut : Text.cut? text "=" with
  | none =>
      have hfree := Text.not_mem_of_cut?_eq_none rfl hcut
      exact ⟨text, "", rfl, hfree, .inr ⟨hfree, rfl, rfl⟩⟩
  | some parts =>
      obtain ⟨htext, hfree⟩ := Text.cut?_eq_some rfl hcut
      exact ⟨parts.1, parts.2, rfl, hfree, .inl htext⟩

theorem spelled_of_parse (h : parse text = .ok f) : f.Spelled text := by
  obtain ⟨declaration, value, hcut, hequals, htext⟩ := declaration_cases text
  simp only [parse, hcut] at h
  cases htype : Text.cut? declaration ":" with
  | none =>
      rw [htype] at h
      cases h
  | some parts =>
      obtain ⟨name, type⟩ := parts
      rw [htype] at h
      cases h
      obtain ⟨rfl, hcolon⟩ := Text.cut?_eq_some rfl htype
      simp only [String.toList_append, List.mem_append, not_or] at hequals
      exact ⟨hcolon, hequals.1.1, hequals.2, htext⟩

theorem parse_of_spelled (h : f.Spelled text) : parse text = .ok f := by
  obtain ⟨name, type, value⟩ := f
  have htype : Text.cut? (name ++ ":" ++ type) ":" = some (name, type) :=
    Text.cut?_append rfl h.nameColon _
  have hvalue : (Text.cut? text "=").getD (text, "") = (name ++ ":" ++ type, value) := by
    rcases h.text_eq with rfl | ⟨hfree, rfl, rfl⟩
    · have hequals : '=' ∉ (name ++ ":" ++ type).toList := by
        simp only [String.toList_append, List.mem_append, not_or]
        exact ⟨⟨h.nameEquals, by decide⟩, h.typeEquals⟩
      rw [Text.cut?_append rfl hequals, Option.getD_some]
    · rw [Text.cut?_eq_none rfl hfree, Option.getD_none]
  simp only [parse, hvalue, htype]

/-- A field is parsed from the texts that it is `Spelled` by, so its parts are determined by its
text. -/
theorem parse_eq_ok_iff : parse text = .ok f ↔ f.Spelled text :=
  ⟨spelled_of_parse, parse_of_spelled⟩

/-- What is divided by `c` behind a part without `d` has a `c` wherever `d` divides it. -/
theorem mem_of_append_eq {c d : Char} {left right before after : List Char}
    (h : left ++ c :: right = before ++ d :: after) (hne : c ≠ d) (hd : d ∉ left) :
    c ∈ before := by
  induction left generalizing before with
  | nil =>
      cases before with
      | nil => exact absurd (List.cons.inj h).1 hne
      | cons b before => exact List.mem_cons.2 (.inl (List.cons.inj h).1)
  | cons l left ih =>
      cases before with
      | nil => exact absurd (List.mem_cons.2 (.inl (List.cons.inj h).1.symm)) hd
      | cons b before =>
          exact List.mem_cons_of_mem b
            (ih (List.cons.inj h).2 (List.not_mem_of_not_mem_cons hd))

/-- A text is refused exactly if it has no colon in front of the first equals sign
(`ColonsBehindEquals`), and the error holds that text. -/
theorem parse_eq_error_iff {e : Malformed} :
    parse text = .error e ↔ e = ⟨text⟩ ∧ ColonsBehindEquals text := by
  obtain ⟨declaration, value, hcut, hequals, htext⟩ := declaration_cases text
  simp only [parse, hcut]
  cases htype : Text.cut? declaration ":" with
  | none =>
      have hcolon := Text.not_mem_of_cut?_eq_none (c := ':') rfl htype
      have hbehind : ColonsBehindEquals text := by
        intro before after hsplit
        rcases htext with rfl | ⟨-, -, rfl⟩
        · have hchars : declaration.toList ++ '=' :: value.toList =
              before.toList ++ ':' :: after.toList := by
            simpa using congrArg String.toList hsplit
          exact mem_of_append_eq hchars (by decide) hcolon
        · simp [hsplit] at hcolon
      simp [hbehind, eq_comm]
  | some parts =>
      obtain ⟨name, type⟩ := parts
      obtain ⟨rfl, -⟩ := Text.cut?_eq_some rfl htype
      simp only [String.toList_append, List.mem_append, not_or] at hequals
      have hnot : ¬ ColonsBehindEquals text := by
        intro hbehind
        rcases htext with rfl | ⟨-, -, rfl⟩
        · have hsplit : name ++ ":" ++ type ++ "=" ++ value =
              name ++ ":" ++ (type ++ "=" ++ value) := by
            simp only [String.append_assoc]
          exact hequals.1.1 (hbehind name _ hsplit)
        · exact hequals.1.1 (hbehind name type rfl)
      simp [hnot]

/-- **Texts are cut at their first separator.** A text in which the separator does not occur
(`Occurs`) is all right side. Any other text is what stands on the left, the separator, and what
stands on the right, and up to the end of that separator there is no other one, be it one that
overlaps with it (`Leftmost`). A field is read exactly if a colon stands before the first equals
sign, or anywhere in a text without one, and its parts are the only ones that spell the text and
do not have the signs that divide them (`Spelled`). -/
theorem separators_first :
    (∀ source sep : String,
      (¬ Text.Occurs sep source ∧ Text.cut source sep = ("", source)) ∨
        ∃ left right, Text.cut source sep = (left, right) ∧
          Text.Leftmost sep source left right) ∧
    ∀ text : String,
      (∀ f : FieldText, parse text = .ok f ↔ f.Spelled text) ∧
      ∀ e : Malformed, parse text = .error e ↔ e = ⟨text⟩ ∧ ColonsBehindEquals text :=
  ⟨Text.cut_cases, fun _ => ⟨fun _ => parse_eq_ok_iff, fun _ => parse_eq_error_iff⟩⟩

end FieldText

end BusScript
