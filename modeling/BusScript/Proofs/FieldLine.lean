import BusScript.CommandLine.Run
import BusScript.Proofs.BigEndian
import BusScript.Proofs.Decimal

/-!
# Fields on a command line

The program is given an identifier, a frame size and fields, each with a name, a
type and an integer. This module says what it answers, from the texts of the
command line to the text that is printed.

The fields are declared in order, and their values are kept by name. What a
field is encoded with is therefore the value that the *last* field of its name
gives (`lastValue`): `run_commandLine`. Where fields of the same name have the
same value, that is the value of each field itself; where they have not, it is
not (`not_answers_repeated`).
-/

namespace BusScript

namespace CommandLine

/-! ### Integer fields -/

/-- A field with an integer `value`, of a `name` and a `type` that can be told apart in its
text. -/
structure IntField where
  name : String
  type : String
  value : Int
  named : name ≠ ""
  plain : name.toList.head? ≠ some '-'
  colon : ':' ∉ name.toList
  equals : '=' ∉ name.toList
  typeEquals : '=' ∉ type.toList
  writable : Numeral.writable value = true

namespace IntField

/-- A field as it is written, `name:type=value`. -/
def text (f : IntField) : String := f.name ++ ":" ++ f.type ++ "=" ++ Numeral.decimal f.value

/-- The parts of the `text` of a field. -/
def parts (f : IntField) : FieldText := ⟨f.name, f.type, Numeral.decimal f.value⟩

/-- The `text` of a field is parsed into its `parts`. -/
theorem parse_text (f : IntField) : FieldText.parse f.text = .ok f.parts := by
  have hvalue : Text.cut? f.text "=" =
      some (f.name ++ ":" ++ f.type, Numeral.decimal f.value) := by
    refine Text.cut?_append rfl ?_ _
    simp only [String.toList_append, List.mem_append, not_or]
    exact ⟨⟨f.equals, by decide⟩, f.typeEquals⟩
  have htype : Text.cut? (f.name ++ ":" ++ f.type) ":" = some (f.name, f.type) :=
    Text.cut?_append rfl f.colon _
  simp only [FieldText.parse, hvalue, Option.getD_some, htype]
  rfl

theorem head?_text (f : IntField) : f.text.toList.head? ≠ some '-' := by
  have hplain := f.plain
  cases hchars : f.name.toList with
  | nil => exact absurd (String.toList_eq_nil_iff.1 hchars) f.named
  | cons c cs =>
      rw [hchars] at hplain
      simpa [text, hchars] using hplain

end IntField

/-- A command line that gives an identifier by `--id`, a frame size by `--frame-size`, and
fields. -/
def commandLine (id size : Int) (fields : List IntField) : List String :=
  "--id" :: Numeral.decimal id :: "--frame-size" :: Numeral.decimal size ::
    fields.map IntField.text

/-! ### Words -/

theorem classifyAll_cons {arg : String} {args : List String} {word : Word} {words : List Word}
    (hne : arg ≠ separatorText) (hword : classify arg = .ok word)
    (hwords : classifyAll args = .ok words) : classifyAll (arg :: args) = .ok (word :: words) := by
  rw [classifyAll, if_neg hne, hword]
  simp only [hwords]

theorem ne_separatorText_of_head? {arg : String} (h : arg.toList.head? ≠ some '-') :
    arg ≠ separatorText := by
  rintro rfl
  exact h rfl

theorem classifyAll_texts (fields : List IntField) :
    classifyAll (fields.map IntField.text) = .ok (fields.map fun f => .plain f.text) := by
  induction fields with
  | nil => rfl
  | cons f fields ih =>
      exact classifyAll_cons (ne_separatorText_of_head? f.head?_text)
        (classify_of_head? f.head?_text) ih

/-- The words of a `commandLine` are two switches with their values, and plain fields. -/
theorem classifyAll_commandLine (id size : Int) (fields : List IntField) :
    classifyAll (commandLine id size fields) =
      .ok (.switch .id :: .plain (Numeral.decimal id) :: .switch .frameSize ::
        .plain (Numeral.decimal size) :: fields.map fun f => .plain f.text) := by
  refine classifyAll_cons (by decide) rfl ?_
  refine classifyAll_cons (Numeral.decimal_ne rfl) (classify_decimal id) ?_
  refine classifyAll_cons (by decide) rfl ?_
  exact classifyAll_cons (Numeral.decimal_ne rfl) (classify_decimal size)
    (classifyAll_texts fields)

/-! ### Options -/

/-- Plain words go to the group of fields that is `growing`. -/
theorem consume_plain {g : Given} {texts : List String} (hg : g.fields = .growing texts)
    (more : List String) :
    consume g (more.map .plain) = .ok (.work { g with fields := .growing (texts ++ more) }) := by
  induction more generalizing g texts with
  | nil => rw [List.append_nil, ← hg]; rfl
  | cons text more ih =>
      have hplain : g.plain text = { g with fields := .growing (texts ++ [text]) } := by
        simp only [Given.plain, hg]
      rw [List.map_cons, consume, hplain, ih rfl, List.append_assoc, List.singleton_append]

theorem parseFields_texts (fields : List IntField) :
    parseFields (fields.map IntField.text) = .ok (fields.map IntField.parts) := by
  induction fields with
  | nil => rfl
  | cons f fields ih =>
      rw [List.map_cons]
      unfold parseFields
      simp only [f.parse_text, ih, List.map_cons]

/-- The `Options` that a command line stands for. -/
def options (id size : Int) (fields : List IntField) : Options where
  fields := fields.map IntField.parts
  id := .number id
  name := some "instruction"
  frameSize := some size
  verbose := false

/-- A `commandLine` with numbers that are `writable` is parsed to its `options`. -/
theorem parse_commandLine {id size : Int} (hid : Numeral.writable id = true)
    (hsize : Numeral.writable size = true) {fields : List IntField} (hne : fields ≠ []) :
    parse (commandLine id size fields) = .ok (.work (options id size fields)) := by
  cases fields with
  | nil => exact absurd rfl hne
  | cons f fields =>
      have hplain : fields.map (fun f => Word.plain f.text) =
          (fields.map IntField.text).map .plain := by
        rw [List.map_map]
        rfl
      simp only [parse, classifyAll_commandLine, List.map_cons, consume, Given.close,
        Given.assign, Numeral.parseDecimal_decimal hid, Numeral.parseDecimal_decimal hsize,
        Given.plain, hplain]
      rw [consume_plain rfl]
      have hfields := parseFields_texts (f :: fields)
      rw [List.map_cons] at hfields
      simp only [Given.complete, Group.texts?, List.singleton_append, hfields]
      rfl

/-! ### Values -/

/-- The value that the last field of the name of `f` gives. -/
def lastValue (fields : List IntField) (f : IntField) : Int :=
  ((fields.reverse.find? (·.name = f.name)).getD f).value

/-- The value of a field as it is kept, without a tag. -/
def IntField.tagged (value : Int) : Tagged := ⟨"", Numeral.decimal value⟩

theorem parse_value (n : Int) : Tagged.parse (Numeral.decimal n) = IntField.tagged n := by
  have hcut : Text.cut? (Numeral.decimal n) ":" = none :=
    Text.cut?_eq_none rfl (Numeral.not_mem_decimal (by decide) (by decide))
  simp only [Tagged.parse, Text.cut, hcut, Option.getD_none]
  rfl

theorem isEmpty_tagged (n : Int) : (IntField.tagged n).isEmpty = false := by
  have hne : Numeral.decimal n ≠ "" := Numeral.decimal_ne rfl
  simp [Tagged.isEmpty, IntField.tagged, hne]

theorem tag_tagged_ne (n : Int) (k : Kind) : (IntField.tagged n).tag ≠ k.tag := by
  change "" ≠ k.tag
  cases k <;> decide

theorem fieldInt?_tagged {n : Int} (h : Numeral.writable n = true) :
    (IntField.tagged n).fieldInt? = some n := by
  have hparse : (IntField.tagged n).toInt = .ok n := by
    rw [Tagged.toInt, if_neg (tag_tagged_ne n .hex)]
    simp only [IntField.tagged, Numeral.parse_decimal h]
  simp only [Tagged.fieldInt?, tag_tagged_ne, decide_false, Bool.or_self, Bool.false_eq_true,
    if_false, hparse]
  rfl

section

variable {fields : List IntField}

/-- Some field has the value that `lastValue` finds. -/
theorem find?_of_mem {f : IntField} (hf : f ∈ fields) :
    ∃ g ∈ fields, g.name = f.name ∧ fields.reverse.find? (·.name = f.name) = some g := by
  cases hfind : fields.reverse.find? (·.name = f.name) with
  | none =>
      have hnone := List.find?_eq_none.1 hfind f (List.mem_reverse.2 hf)
      exact absurd (decide_eq_true rfl) hnone
  | some g =>
      refine ⟨g, List.mem_reverse.1 (List.mem_of_find?_eq_some hfind), ?_, rfl⟩
      simpa using List.find?_some hfind

theorem exists_lastValue {f : IntField} (hf : f ∈ fields) :
    ∃ g ∈ fields, g.name = f.name ∧ lastValue fields f = g.value := by
  obtain ⟨g, hg, hname, hfind⟩ := find?_of_mem hf
  exact ⟨g, hg, hname, by rw [lastValue, hfind, Option.getD_some]⟩

theorem lookup_map_name (value : IntField → Tagged) (l : List IntField) (x : String) :
    (l.map fun f => (f.name, value f)).lookup x = (l.find? (·.name = x)).map value := by
  induction l with
  | nil => rfl
  | cons f l ih =>
      rw [List.map_cons, Assoc.lookup_cons, List.find?_cons]
      by_cases hx : x = f.name
      · simp [hx]
      · simp [hx, Ne.symm hx, ih]

/-- The value that is kept under the name of a field is its `lastValue`. -/
theorem get?_actuals (id size : Int) {f : IntField} (hf : f ∈ fields) :
    (options id size fields).actuals.get? f.name =
      some (IntField.tagged (lastValue fields f)) := by
  obtain ⟨g, hg, hname, hfind⟩ := find?_of_mem hf
  have hbindings : (options id size fields).fields.map
      (fun f => (f.name, Tagged.parse f.value)) =
        fields.map fun f => (f.name, IntField.tagged f.value) := by
    rw [options, List.map_map]
    refine List.map_congr_left fun f hf => ?_
    exact Prod.ext rfl (parse_value f.value)
  rw [Options.actuals, hbindings, Store.get?_ofList, ← List.map_reverse, lookup_map_name, hfind,
    lastValue, hfind]
  · rfl
  · intro b hb
    obtain ⟨f', -, rfl⟩ := List.mem_map.1 hb
    exact isEmpty_tagged f'.value

end

/-! ### Encodings -/

/-- A field has a type that there is, and its `value` lies in the range of the type. -/
def Fits (value : IntField → Int) (f : IntField) : Prop :=
  ∃ t, FieldType.ofName? f.type = some t ∧ t.low ≤ value f ∧ value f ≤ t.high

/-- The number of bytes of `fields`. -/
def totalWidth (fields : List IntField) : Nat :=
  (fields.map fun f => (FieldType.ofName? f.type).elim 0 FieldType.width).sum

/-- The bytes of fields, one after the other, each of which `Represents` its value. -/
inductive Layout (value : IntField → Int) : List IntField → Bytes → Prop
  | nil : Layout value [] []
  | cons {f : IntField} {t : FieldType} {bs rest : Bytes} {fields : List IntField}
      (ht : FieldType.ofName? f.type = some t) (hbs : t.Represents (value f) bs)
      (hrest : Layout value fields rest) : Layout value (f :: fields) (bs ++ rest)

theorem Layout.unique {value : IntField → Int} {fields : List IntField} {bs cs : Bytes}
    (h : Layout value fields bs) (h' : Layout value fields cs) : bs = cs := by
  induction h generalizing cs with
  | nil => cases h'; rfl
  | cons ht hbs hrest ih =>
      cases h' with
      | cons ht' hbs' hrest' =>
          cases ht.symm.trans ht'
          rw [hbs.unique hbs', ih hrest']

theorem Layout.length_eq {value : IntField → Int} {fields : List IntField} {bs : Bytes}
    (h : Layout value fields bs) : bs.length = totalWidth fields := by
  induction h with
  | nil => rfl
  | cons ht hbs hrest ih =>
      rw [List.length_append, hbs.length, ih, totalWidth, totalWidth, List.map_cons, List.sum_cons,
        ht]
      rfl

/-- The bytes depend on the `value` of the fields only. -/
theorem Layout.congr {value value' : IntField → Int} {fields : List IntField} {bs : Bytes}
    (hvalue : ∀ f ∈ fields, value f = value' f) (h : Layout value fields bs) :
    Layout value' fields bs := by
  induction h with
  | nil => exact .nil
  | cons ht hbs hrest ih =>
      obtain ⟨hf, hfields⟩ := List.forall_mem_cons.1 hvalue
      exact .cons ht (hf ▸ hbs) (ih hfields)

/-- The `Param` of the instruction that a field declares. -/
def IntField.param (f : IntField) : Param := { name := f.name, type := f.type }

section

variable {id size : Int} {fields : List IntField}

theorem value_param {f : IntField} (hf : f ∈ fields) :
    f.param.value (options id size fields).actuals =
      .ok (IntField.tagged (lastValue fields f)) := by
  have hget := get?_actuals id size hf
  have hlookup : Scopes.lookup? [(options id size fields).actuals] f.name =
      some (IntField.tagged (lastValue fields f)) := by
    simp only [Scopes.lookup?, List.findSome?_cons, hget]
  have hresolve := Scopes.resolve_of_lookup? hlookup (by simp [Tagged.isVar, tag_tagged_ne])
  have hname : f.param.name = f.name := rfl
  simp only [Param.value, hname, hget, hresolve]

/-- A field that `Fits` is encoded by its bytes, and any other is refused. -/
theorem encode_param (id size : Int) {f : IntField} (hf : f ∈ fields) (instruction : String) :
    (Fits (lastValue fields) f ∧ ∃ t bs, FieldType.ofName? f.type = some t ∧
      t.Represents (lastValue fields f) bs ∧
      f.param.encode instruction (options id size fields).actuals = .ok bs) ∨
    (¬ Fits (lastValue fields) f ∧ ∃ e,
      f.param.encode instruction (options id size fields).actuals = .error (.error e)) := by
  obtain ⟨g, -, -, hvalue⟩ := exists_lastValue hf
  have hwritable : Numeral.writable (lastValue fields f) = true := hvalue ▸ g.writable
  have htype : f.param.type = f.type := rfl
  simp only [Param.encode, value_param hf, packField, htype, fieldInt?_tagged hwritable]
  cases ht : FieldType.ofName? f.type with
  | none =>
      refine .inr ⟨?_, _, rfl⟩
      rintro ⟨t, ht', -⟩
      rw [ht] at ht'
      cases ht'
  | some t =>
      dsimp only
      by_cases hrange : t.low ≤ lastValue fields f ∧ lastValue fields f ≤ t.high
      · rw [if_pos hrange]
        exact .inl ⟨⟨t, ht, hrange⟩, t, _, rfl, FieldType.represents_encode hrange.1, rfl⟩
      · rw [if_neg hrange]
        refine .inr ⟨?_, .field instruction f.name (.outOfRange f.type (lastValue fields f)), ?_⟩
        · rintro ⟨t', ht', hrange'⟩
          cases ht.symm.trans ht'
          exact hrange hrange'
        · simp only [Failure.showing, List.all_cons, List.all_nil, hwritable, Bool.and_true,
            if_true]
          rfl

/-- Fields that fit are encoded by their `Layout`; the first that does not fit is refused. -/
theorem encodeParams_fields (id size : Int) (instruction : String) {fs : List IntField}
    (hfs : fs ⊆ fields) :
    ((∀ f ∈ fs, Fits (lastValue fields) f) ∧ ∃ data, Layout (lastValue fields) fs data ∧
      encodeParams instruction (options id size fields).actuals (fs.map IntField.param) =
        .ok data) ∨
    ((¬ ∀ f ∈ fs, Fits (lastValue fields) f) ∧ ∃ e,
      encodeParams instruction (options id size fields).actuals (fs.map IntField.param) =
        .error (.error e)) := by
  induction fs with
  | nil => exact .inl ⟨by simp, [], .nil, rfl⟩
  | cons f fs ih =>
      obtain ⟨hf, hfs⟩ := List.cons_subset.1 hfs
      rw [List.map_cons, encodeParams]
      rcases encode_param id size hf instruction with
        ⟨hfits, t, bs, ht, hbs, hencode⟩ | ⟨hmisfit, e, hencode⟩
      · rcases ih hfs with ⟨hall, rest, hrest, hdata⟩ | ⟨hnot, e, hdata⟩
        · refine .inl ⟨List.forall_mem_cons.2 ⟨hfits, hall⟩, bs ++ rest, .cons ht hbs hrest, ?_⟩
          simp only [hencode, hdata]
        · refine .inr ⟨fun hall => hnot (List.forall_mem_cons.1 hall).2, e, ?_⟩
          simp only [hencode, hdata]
      · refine .inr ⟨fun hall => hmisfit (List.forall_mem_cons.1 hall).1, e, ?_⟩
        simp only [hencode]

end

/-! ### Answers -/

/-- All fields fit (`Fits`), and the frame has the required size, if one is required. -/
structure Accepted (value : IntField → Int) (size : Int) (fields : List IntField) : Prop where
  fits : ∀ f ∈ fields, Fits value f
  sized : size = 0 ∨ size = totalWidth fields

/-- What the program answers to a `commandLine` if its fields have values by `value`: it prints
the bytes of the fields, or it fails and prints nothing. -/
structure Answers (value : IntField → Int) (id size : Int) (fields : List IntField) : Prop where
  accepted : Accepted value size fields →
    ∃ data, Layout value fields data ∧ (run (commandLine id size fields)).status = 0 ∧
      (run (commandLine id size fields)).output = Bytes.spacedHex data ++ "\n"
  refused : ¬ Accepted value size fields →
    (run (commandLine id size fields)).status = 1 ∧
      (run (commandLine id size fields)).output = ""

namespace Options

/-- The frame that `Options` ask for, under the name of an instruction. -/
def frame (o : Options) (name : String) : Except (Failure EncodeError) Frame :=
  (o.instruction name).encode (o.engine name).frameSize o.actuals

theorem findInstruction?_engine (o : Options) (name : String) :
    (o.engine name).findInstruction? name = some (o.instruction name) := by
  have hname : (o.instruction name).name = name := rfl
  rw [engine, Engine.addInstruction, Engine.findInstruction?, Assoc.lookup_put, hname, if_pos rfl]

/-- The bytes of a `frame` are printed. -/
theorem report_of_frame_ok {o : Options} {name : String} (hname : o.name = some name)
    {f : Frame} (hframe : o.frame name = .ok f) (htext : f.render?.isSome = true) :
    ∃ shown, o.report = .encoded (f.hex ++ "\n") shown := by
  obtain ⟨text, htext⟩ := Option.isSome_iff_exists.1 htext
  unfold frame at hframe
  simp only [report, hname, Engine.send, findInstruction?_engine, hframe, htext]
  exact ⟨_, rfl⟩

/-- Nothing is printed of a `frame` that is refused. -/
theorem report_of_frame_error {o : Options} {name : String} (hname : o.name = some name)
    {e : EncodeError} (hframe : o.frame name = .error (.error e)) :
    ∃ shown, o.report = .refused shown := by
  unfold frame at hframe
  simp only [report, hname, Engine.send, findInstruction?_engine, hframe]
  exact ⟨_, rfl⟩

end Options

section

variable {id size : Int} {fields : List IntField}

theorem params_instruction (name : String) :
    ((options id size fields).instruction name).params = fields.map IntField.param := by
  rw [Options.instruction, options, List.map_map]
  rfl

theorem frameSize_engine (name : String) :
    ((options id size fields).engine name).frameSize = if size = 0 then none else some size := by
  by_cases hzero : size = 0 <;>
    simp [Options.engine, Engine.addInstruction, options, Option.filter, hzero]

/-- The `frame` is encoded from the `Layout` of the fields, or it is refused. -/
theorem frame_options (id : Int) (hsize : Numeral.writable size = true) (fields : List IntField) :
    (Accepted (lastValue fields) size fields ∧ ∃ data, Layout (lastValue fields) fields data ∧
      (options id size fields).frame "instruction" = .ok ⟨.number id, data, "instruction"⟩) ∨
    (¬ Accepted (lastValue fields) size fields ∧
      ∃ e, (options id size fields).frame "instruction" = .error (.error e)) := by
  simp only [Options.frame, Instruction.encode, params_instruction, frameSize_engine]
  rcases encodeParams_fields id size ((options id size fields).instruction "instruction").name
      (List.Subset.refl fields) with
    ⟨hall, data, hlayout, hdata⟩ | ⟨hnot, e, hdata⟩
  · simp only [hdata]
    by_cases hzero : size = 0
    · refine .inl ⟨⟨hall, .inl hzero⟩, data, hlayout, ?_⟩
      simp only [if_pos hzero]
      rfl
    · simp only [if_neg hzero]
      by_cases hlength : (data.length : Int) = size
      · refine .inl ⟨⟨hall, .inr ?_⟩, data, hlayout, ?_⟩
        · rw [← hlayout.length_eq, hlength]
        · rw [if_pos hlength]
          rfl
      · rw [if_neg hlength]
        refine .inr ⟨?_, .size "instruction" data.length size, ?_⟩
        · rintro ⟨-, hzero' | htotal⟩
          · exact hzero hzero'
          · rw [hlayout.length_eq] at hlength
            exact hlength htotal.symm
        · simp only [Failure.showing, List.all_cons, List.all_nil, hsize, Bool.and_true, if_true]
          rfl
  · refine .inr ⟨fun h => hnot h.fits, e, ?_⟩
    simp only [hdata]

/-- The program answers with the `lastValue` of every field. -/
theorem answers_lastValue (hid : Numeral.writable id = true) (hsize : Numeral.writable size = true)
    (hne : fields ≠ []) : Answers (lastValue fields) id size fields := by
  have hrun : run (commandLine id size fields) = (options id size fields).report := by
    simp only [run, parse_commandLine hid hsize hne]
  rcases frame_options id hsize fields with ⟨haccepted, data, hlayout, hframe⟩ | ⟨hnot, e, hframe⟩
  · have htext : (⟨.number id, data, "instruction"⟩ : Frame).render?.isSome = true := by
      simp [Frame.render?, BusId.render?, Numeral.write?, hid]
    obtain ⟨shown, hreport⟩ := Options.report_of_frame_ok rfl hframe htext
    constructor
    · intro _
      rw [hrun, hreport]
      exact ⟨data, hlayout, rfl, rfl⟩
    · intro hrefused
      exact absurd haccepted hrefused
  · obtain ⟨shown, hreport⟩ := Options.report_of_frame_error rfl hframe
    constructor
    · intro haccepted
      exact absurd haccepted hnot
    · intro _
      rw [hrun, hreport]
      exact ⟨rfl, rfl⟩

/-- Values that agree on the fields lead to the same `Answers`. -/
theorem Answers.congr {value value' : IntField → Int} (hvalue : ∀ f ∈ fields, value f = value' f)
    (h : Answers value id size fields) : Answers value' id size fields := by
  have hfits : (∀ f ∈ fields, Fits value f) ↔ ∀ f ∈ fields, Fits value' f := by
    refine forall₂_congr fun f hf => ?_
    rw [Fits, Fits, hvalue f hf]
  constructor
  · intro haccepted
    obtain ⟨data, hlayout, hrun⟩ := h.accepted ⟨hfits.2 haccepted.fits, haccepted.sized⟩
    exact ⟨data, hlayout.congr hvalue, hrun⟩
  · intro hrefused
    exact h.refused fun haccepted => hrefused ⟨hfits.1 haccepted.fits, haccepted.sized⟩

/-- **Fields are encoded in order, by the last value of their name (`lastValue`).** For all
fields, identifiers and frame sizes, `run` prints the bytes of the fields in hex and exits with
zero if the fields are `Accepted`, and otherwise it exits with one and prints nothing. A field
has its own value if all fields of its name have the same. -/
theorem run_commandLine (hid : Numeral.writable id = true) (hsize : Numeral.writable size = true)
    (hne : fields ≠ []) :
    Answers (lastValue fields) id size fields ∧
    ((∀ f ∈ fields, ∀ g ∈ fields, f.name = g.name → f.value = g.value) →
      Answers IntField.value id size fields) := by
  have hlast := answers_lastValue hid hsize hne
  refine ⟨hlast, fun hsame => hlast.congr fun f hf => ?_⟩
  obtain ⟨g, hg, hname, hvalue⟩ := exists_lastValue hf
  rw [hvalue, hsame g hg f hf hname]

end

/-- Two fields of different names, `speed` and `turn`. -/
def driving : List IntField :=
  [⟨"speed", "u16", 1200, by decide, by decide, by decide, by decide, by decide, by decide +kernel⟩,
    ⟨"turn", "i8", -1, by decide, by decide, by decide, by decide, by decide, by decide +kernel⟩]

theorem run_commandLine_driving :
    commandLine 7 3 driving = ["--id", "7", "--frame-size", "3", "speed:u16=1200", "turn:i8=-1"] ∧
    (run (commandLine 7 3 driving)).output = "04 b0 ff\n" ∧
    Answers IntField.value 7 3 driving := by
  have hid : Numeral.writable 7 = true := by decide +kernel
  have hsize : Numeral.writable 3 = true := by decide +kernel
  refine ⟨by decide +kernel, by decide +kernel, ?_⟩
  refine (run_commandLine hid hsize (List.cons_ne_nil _ _)).2 ?_
  decide

/-- Two fields of the same name `a`. -/
def repeated : List IntField :=
  [⟨"a", "u8", 1, by decide, by decide, by decide, by decide, by decide, by decide +kernel⟩,
    ⟨"a", "u8", 2, by decide, by decide, by decide, by decide, by decide, by decide +kernel⟩]

/-- The value of the first field of `repeated` is lost. -/
theorem not_answers_repeated :
    commandLine 1 2 repeated = ["--id", "1", "--frame-size", "2", "a:u8=1", "a:u8=2"] ∧
    (run (commandLine 1 2 repeated)).output = "02 02\n" ∧
    ¬ Answers IntField.value 1 2 repeated := by
  have houtput : (run (commandLine 1 2 repeated)).output = "02 02\n" := by decide +kernel
  refine ⟨by decide +kernel, houtput, fun h => ?_⟩
  have hfits : ∀ f ∈ repeated, Fits IntField.value f := by
    simp only [repeated, List.forall_mem_cons]
    refine ⟨?_, ?_, List.forall_mem_nil _⟩
    · exact ⟨.u8, rfl, by decide, by decide⟩
    · exact ⟨.u8, rfl, by decide, by decide⟩
  obtain ⟨data, hlayout, -, hdata⟩ := h.accepted ⟨hfits, .inr rfl⟩
  have hown : Layout IntField.value repeated ([1] ++ ([2] ++ [])) :=
    .cons rfl ⟨rfl, rfl⟩ (.cons rfl ⟨rfl, rfl⟩ .nil)
  cases hlayout.unique hown
  exact absurd (houtput.symm.trans hdata) (by decide)

end CommandLine

end BusScript
