import BusScript.Numeral.Integer
import BusScript.Text
import BusScript.Wire

/-!
# The arguments of the command line

The arguments of the program are classified one by one (`classify`), consumed from left to
right (`consume`), and give the `Options` of a frame and its fields, which are written
`name:type=value` (`FieldText`).
-/

/-! ## Fields on the command line

A field is written `name:type=value`. The value begins at the first equals
sign, and the type at the first colon before it; without an equals sign the
value is empty.
-/

namespace BusScript

/-- A field of a frame, as it is written on the command line: `name:type=value`. -/
structure FieldText where
  name : String
  type : String
  value : String
deriving Repr, DecidableEq

/-- A text that is no field, since it lacks the colon before the equals sign. -/
structure FieldText.Malformed where
  text : String
deriving Repr, DecidableEq

/-- The wording of an error, with the whole text quoted. -/
def FieldText.Malformed.message (e : FieldText.Malformed) : String :=
  "Expected name:type=value, got " ++ Text.quote e.text

/-- Read a field. The value begins behind the first equals sign and is empty without one; the
declaration before it is cut at its first colon. -/
def FieldText.parse (text : String) : Except FieldText.Malformed FieldText :=
  let (declaration, value) := (Text.cut? text "=").getD (text, "")
  match Text.cut? declaration ":" with
  | none => .error ⟨text⟩
  | some (name, type) => .ok ⟨name, type, value⟩

end BusScript

/-! ## Words of a command line

Arguments are classified one by one: options, which begin with a hyphen, and
plain words. An option may be cut short as long as it stays unique, and its
value may be attached by an equals sign; the separator `--` attached in its
place leaves the value blank. Negative numbers and words with a space are
plain in spite of a hyphen, and so is everything after a separator that stands
alone.
-/

namespace BusScript.CommandLine

/-- The options of the command line, whose `spellings` begin with hyphens. -/
inductive Switch where
  | help
  | id
  | name
  | frameSize
  | verbose
deriving Repr, DecidableEq

/-- The spellings of options, in the order in which they are tried and listed. -/
def spellings : List (String × Switch) :=
  [("-h", .help), ("--help", .help), ("--id", .id), ("--name", .name),
   ("--frame-size", .frameSize), ("--verbose", .verbose)]

/-- The name of an option in messages: all its `spellings`, with slashes between them. -/
def Switch.label (s : Switch) : String :=
  "/".intercalate ((spellings.filter (·.2 = s)).map (·.1))

/-- Whether an option needs a value; `help` and `verbose` take none. -/
def Switch.takesValue : Switch → Bool
  | .help | .verbose => false
  | .id | .name | .frameSize => true

/-- The name of the fields in messages, as `UsageError.required` lists it. -/
def fieldsLabel : String := "name:type=value"

/-- Why a command line is not understood by `parse`. -/
inductive UsageError where
  /-- The shortened option `arg` has several completions. -/
  | ambiguous (arg : String) (completions : List String)
  /-- An option that needs a value has none (`Switch.takesValue`). -/
  | expectedOne (s : Switch)
  /-- The value `text` is attached to an option that takes none. -/
  | ignored (s : Switch) (text : String)
  /-- The value of an option is no integer, as `Numeral.parseDecimal` reads it. -/
  | invalidInt (s : Switch) (text : String)
  /-- Something that has to be given is missing. -/
  | required (labels : List String)
  /-- There are words that belong to nothing (`Given.extras`). -/
  | unrecognized (words : List String)
  /-- A field is not understood (`FieldText.parse`). -/
  | field (e : FieldText.Malformed)
deriving Repr, DecidableEq

/-- The wording of an error, behind the name of the program. -/
def UsageError.message : UsageError → String
  | .ambiguous arg completions =>
    "ambiguous option: " ++ arg ++ " could match " ++ ", ".intercalate completions
  | .expectedOne s => "argument " ++ s.label ++ ": expected one argument"
  | .ignored s text =>
    "argument " ++ s.label ++ ": ignored explicit argument " ++ Text.quote text
  | .invalidInt s text => "argument " ++ s.label ++ ": invalid int value: " ++ Text.quote text
  | .required labels =>
    "the following arguments are required: " ++ ", ".intercalate labels
  | .unrecognized words => "unrecognized arguments: " ++ " ".intercalate words
  | .field e => e.message

/-! ### Words -/

/-- An argument, as `classify` finds it. -/
inductive Word where
  /-- A plain word. -/
  | plain (text : String)
  /-- The separator after which all words are plain. -/
  | separator
  /-- An option without an attached value. -/
  | switch (s : Switch)
  /-- An option with an attached value `text` that it needs. -/
  | valued (s : Switch) (text : String)
  /-- An option whose value is left blank. -/
  | blank (s : Switch)
  /-- An option with an attached value `text` that it does not take. -/
  | refused (s : Switch) (text : String)
  /-- Something like an option that there is not. -/
  | unknown (text : String)
deriving Repr, DecidableEq

/-- The word after which all words are plain: `Word.separator`. -/
def separatorText : String := "--"

/-- An option with an attached value. The separator is no value: attached to an option that
needs one, it gives `Word.blank`. -/
def Word.attach (s : Switch) (text : String) : Word :=
  if !s.takesValue then .refused s text
  else if text = separatorText then .blank s
  else .valued s text

/-- The text of `arg` before the first equals sign and, if there is one, the text behind it. -/
def splitValue (arg : String) : String × Option String :=
  match Text.cut? arg "=" with
  | some (option, value) => (option, some value)
  | none => (arg, none)

/-- Whether a word is a negative number: digits with at most one point, which
stands before a digit. A line feed at the end does no harm. -/
def isNegativeNumber (cs : List Char) : Bool :=
  let isDigit := fun c => (Text.decimalDigit? c).isSome
  let ends := fun rest => rest = [] || rest = ['\n']
  match cs with
  | '-' :: body =>
    let whole := body.takeWhile isDigit
    match body.dropWhile isDigit with
    | '.' :: fraction =>
      !(fraction.takeWhile isDigit).isEmpty && ends (fraction.dropWhile isDigit)
    | rest => !whole.isEmpty && ends rest
  | _ => false

/-- The one-letter option `-h` with more behind it, directly or after an equals sign. Letters of
the same kind may be repeated; what is left then is a value, and is `refused`. -/
def helpCluster : List Char → Word
  | ['h'] => .switch .help
  | 'h' :: cs => helpCluster cs
  | cs => .refused .help (String.ofList cs)

/-- Classify a word that begins with a hyphen and is none of the `spellings`: an option that is
cut short and still unique, a negative number, a word with a blank, or nothing that is known. -/
def classifyShortened (arg : String) : Except UsageError Word :=
  let (option, value) := splitValue arg
  let word (s : Switch) : Word := match value with
    | some text => Word.attach s text
    | none => .switch s
  let plainOrUnknown : Word :=
    if isNegativeNumber arg.toList || arg.toList.contains ' ' then .plain arg else .unknown arg
  match arg.toList with
  | '-' :: '-' :: _ =>
    match spellings.filter fun entry => option.toList.isPrefixOf entry.1.toList with
    | [] => .ok plainOrUnknown
    | [(_, s)] => .ok (word s)
    | several => .error (.ambiguous arg (several.map (·.1)))
  | '-' :: 'h' :: cs => .ok (helpCluster cs)
  | _ => .ok plainOrUnknown

/-- Classify an argument by itself. Only options begin with a hyphen, and not all words that do
are options (`classifyShortened`). -/
def classify (arg : String) : Except UsageError Word :=
  match arg.toList with
  | ['-'] => .ok (.plain arg)
  | '-' :: _ =>
    match spellings.lookup arg with
    | some s => .ok (.switch s)
    | none =>
      match splitValue arg with
      | (option, some text) =>
        if option = "-h" then .ok (helpCluster text.toList)
        else match spellings.lookup option with
          | some s => .ok (Word.attach s text)
          | none => classifyShortened arg
      | (_, none) => classifyShortened arg
  | _ => .ok (.plain arg)

/-- Classify all arguments with `classify`, up to a separator; what follows it is plain. -/
def classifyAll : List String → Except UsageError (List Word)
  | [] => .ok []
  | arg :: args =>
    if arg = separatorText then .ok (.separator :: args.map .plain)
    else match classify arg with
      | .error e => .error e
      | .ok word =>
        match classifyAll args with
        | .error e => .error e
        | .ok words => .ok (word :: words)

end BusScript.CommandLine

/-! ## Command-line options

The words of a command line are consumed from left to right. An option takes
the plain word behind it if it needs a value. The plain words of the first
group are the fields of the frame; plain words of a later group belong to
nothing. Only then is it checked that nothing is missing, that nothing is left
over, and that the fields are understood, in this order.
-/

namespace BusScript.CommandLine

/-- The group of plain words that are the fields. -/
inductive Group where
  /-- No field was seen. -/
  | absent
  /-- The last word was a field; more may follow. -/
  | growing (texts : List String)
  /-- An option ended the group (`Given.close`). -/
  | closed (texts : List String)
deriving Repr, DecidableEq

/-- What the words consumed so far have said. -/
structure Given where
  fields : Group := .absent
  /-- The identifier, once it is given; `BusId.blank` if its value was left blank. -/
  id : Option BusId := none
  /-- The name, unless it was left blank. -/
  name : Option String := some "instruction"
  /-- The required size of the frame, unless it was left blank. -/
  frameSize : Option Int := some defaultFrameSize
  verbose : Bool := false
  /-- Words that belong to nothing, for `UsageError.unrecognized`. -/
  extras : List String := []

namespace Given

/-- An option ends the group of `fields`, if it has begun. -/
def close (g : Given) : Given :=
  match g.fields with
  | .growing texts => { g with fields := .closed texts }
  | _ => g

/-- A word that belongs to nothing, kept in `extras`. -/
def extra (g : Given) (text : String) : Given := { g with extras := g.extras ++ [text] }

/-- A plain word that is no value of an option: one of the `fields`, unless their group is
closed. -/
def plain (g : Given) (text : String) : Given :=
  match g.fields with
  | .absent => { g with fields := .growing [text] }
  | .growing texts => { g with fields := .growing (texts ++ [text]) }
  | .closed _ => g.extra text

/-- The separator is part of a group that has a field before or behind it; `last` tells that
nothing is behind it. -/
def separator (g : Given) (last : Bool) : Given :=
  match g.fields with
  | .absent => if last then g.extra separatorText else g
  | .growing _ => g
  | .closed _ => g.extra separatorText

/-- An option with the value `text`, which has to be an integer for `id` and `frameSize`. -/
def assign (g : Given) (s : Switch) (text : String) : Except UsageError Given :=
  match s with
  | .name => .ok { g with name := some text }
  | .id =>
    match Numeral.parseDecimal text with
    | .ok n => .ok { g with id := some (.number n) }
    | .error _ => .error (.invalidInt .id text)
  | .frameSize =>
    match Numeral.parseDecimal text with
    | .ok n => .ok { g with frameSize := some n }
    | .error _ => .error (.invalidInt .frameSize text)
  | .help | .verbose => .error (.ignored s text)

/-- An option whose value is left blank (`Word.blank`). -/
def assignBlank (g : Given) (s : Switch) : Given :=
  match s with
  | .name => { g with name := none }
  | .id => { g with id := some .blank }
  | .frameSize => { g with frameSize := none }
  | .help | .verbose => g

end Given

/-- What a command line asks for. -/
inductive Request (α : Type) where
  /-- An explanation of the program. -/
  | help
  /-- The program's work, with what was understood of it. -/
  | work (a : α)

/-- Consume words from left to right, each changing what is `Given`. A request for help ends it
at once, as does the first error. -/
def consume (g : Given) : List Word → Except UsageError (Request Given)
  | [] => .ok (.work g)
  | .plain text :: words => consume (g.plain text) words
  | .separator :: words => consume (g.separator words.isEmpty) words
  | .unknown text :: words => consume (g.close.extra text) words
  | .refused s text :: _ => .error (.ignored s text)
  | .valued s text :: words =>
    match g.close.assign s text with
    | .error e => .error e
    | .ok g => consume g words
  | .blank s :: words => consume (g.close.assignBlank s) words
  | .switch .help :: _ => .ok .help
  | .switch .verbose :: words => consume { g.close with verbose := true } words
  | .switch s :: .plain text :: words =>
    match g.close.assign s text with
    | .error e => .error e
    | .ok g => consume g words
  | .switch s :: _ => .error (.expectedOne s)

/-- A complete command line, as `Given.complete` makes it. -/
structure Options where
  fields : List FieldText
  id : BusId
  /-- The name of the instruction, unless it was left blank. -/
  name : Option String
  /-- The required size of the frame; any size will do if it is zero or was
  left blank. -/
  frameSize : Option Int
  verbose : Bool

/-- The texts of the fields, unless the group is `absent`. -/
def Group.texts? : Group → Option (List String)
  | .absent => none
  | .growing texts => some texts
  | .closed texts => some texts

/-- Read fields by `FieldText.parse`; the first that is malformed decides. -/
def parseFields : List String → Except UsageError (List FieldText)
  | [] => .ok []
  | text :: texts =>
    match FieldText.parse text with
    | .error e => .error (.field e)
    | .ok field =>
      match parseFields texts with
      | .error e => .error e
      | .ok fields => .ok (field :: fields)

/-- Check that nothing is missing and nothing is left over, and only then read the fields with
`parseFields`. -/
def Given.complete (g : Given) : Except UsageError Options :=
  match g.fields.texts?, g.id with
  | none, none => .error (.required [fieldsLabel, Switch.id.label])
  | none, some _ => .error (.required [fieldsLabel])
  | some _, none => .error (.required [Switch.id.label])
  | some texts, some id =>
    if !g.extras.isEmpty then .error (.unrecognized g.extras)
    else match parseFields texts with
      | .error e => .error e
      | .ok fields => .ok ⟨fields, id, g.name, g.frameSize, g.verbose⟩

/-- Understand a command line: `classifyAll` its words, `consume` them, and `Given.complete` the
result. -/
def parse (args : List String) : Except UsageError (Request Options) :=
  match classifyAll args with
  | .error e => .error e
  | .ok words =>
    match consume {} words with
    | .error e => .error e
    | .ok .help => .ok .help
    | .ok (.work g) => g.complete.map .work

end BusScript.CommandLine
