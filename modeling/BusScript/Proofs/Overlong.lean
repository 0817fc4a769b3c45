import BusScript.Execution.Machine

/-!
# Integers that are too long to be written

Where an integer is turned into text, the operation fails if the integer has
more digits than can be written. Two operations of a statement compute or show
integers that a program can make as long as it likes:

* an assignment writes the results of its operators (`Memory.Computes`);
* an instruction writes an integer that does not fit its field, a frame size
  that is not met, and the identifier of the frame (`SendWrites`).

Each of them fails for the length of a number if and only if it has to write
one that is too long: `Memory.setVar_eq_unwritable_iff` and
`Engine.send_eq_unwritable_iff`, from one such statement for every operation
below them.
-/

namespace BusScript

/-! ### Operators -/

/-- A value has the tag `int` and denotes `n`. -/
structure Tagged.Denotes (v : Tagged) (n : Int) : Prop where
  tag : v.tag = Kind.int.tag
  parse : Numeral.parse v.payload = .ok n

/-- The integer operation of an operator; there is none for `div`. -/
def Operator.integral? : Operator → Option (Int → Int → Int)
  | .add => some (· + ·)
  | .sub => some (· - ·)
  | .mul => some (· * ·)
  | .div => none

/-- The operator `op` computes an integer from the values `x` and `y`. -/
inductive Operator.Computes (op : Operator) (x y : Tagged) : Int → Prop
  | intro {f : Int → Int → Int} {m n : Int} (hf : op.integral? = some f) (hx : x.Denotes m)
      (hy : y.Denotes n) : Computes op x y (f m n)

namespace Operator

theorem bothTagged_int_iff {x y : Tagged} :
    bothTagged .int x y = true ↔ x.tag = Kind.int.tag ∧ y.tag = Kind.int.tag := by
  simp [bothTagged]

theorem ints_eq_ok_iff {op : Operator} {x y : Tagged} {m n : Int} :
    op.ints x y = .ok (m, n) ↔ x.Denotes m ∧ y.Denotes n := by
  constructor
  · intro h
    unfold ints at h
    split at h
    · rename_i htag
      have htags := bothTagged_int_iff.1 htag
      split at h
      · rename_i hx hy
        cases h
        exact ⟨⟨htags.1, hx⟩, htags.2, hy⟩
      · cases h
    · cases h
  · intro h
    rcases h with ⟨hx, hy⟩
    rw [ints, if_pos (bothTagged_int_iff.2 ⟨hx.tag, hy.tag⟩), hx.parse, hy.parse]

/-- A result is `unwritable` exactly if it is not `writable`. -/
theorem ofResult_eq_unwritable_iff {n : Int} :
    ofResult n = .error .unwritable ↔ Numeral.writable n = false := by
  unfold ofResult Tagged.ofInt? Numeral.write?
  cases Numeral.writable n <;> simp

/-- An operation on integers fails so exactly if its operands denote integers with a result that
is too long. -/
theorem onInts_eq_unwritable_iff {op : Operator} {f : Int → Int → Int} {x y : Tagged} :
    op.onInts f x y = .error .unwritable ↔
      ∃ m n, x.Denotes m ∧ y.Denotes n ∧ Numeral.writable (f m n) = false := by
  unfold onInts
  cases hxy : op.ints x y with
  | error e =>
      constructor
      · exact nofun
      · intro h
        rcases h with ⟨m, n, hx, hy, -⟩
        rw [ints_eq_ok_iff.2 ⟨hx, hy⟩] at hxy
        cases hxy
  | ok p =>
      obtain ⟨m, n⟩ := p
      have hd := ints_eq_ok_iff.1 hxy
      rw [ofResult_eq_unwritable_iff]
      constructor
      · exact fun hw => ⟨m, n, hd.1, hd.2, hw⟩
      · intro h
        rcases h with ⟨m', n', hx, hy, hw⟩
        rw [ints_eq_ok_iff.2 ⟨hx, hy⟩] at hxy
        cases hxy
        exact hw

theorem apply_eq_unwritable_iff_onInts {op : Operator} {f : Int → Int → Int} {x y : Tagged}
    (hf : op.integral? = some f) :
    op.apply x y = .error .unwritable ↔ op.onInts f x y = .error .unwritable := by
  cases op with
  | add =>
      cases hf
      rw [apply]
      by_cases htag : bothTagged .int x y = true
      · rw [if_pos htag]
      · -- two values that are not both integers are joined to a text
        rw [if_neg htag]
        refine ⟨nofun, fun h => ?_⟩
        obtain ⟨m, n, hx, hy, -⟩ := onInts_eq_unwritable_iff.1 h
        exact absurd (bothTagged_int_iff.2 ⟨hx.tag, hy.tag⟩) htag
  | sub => cases hf; exact Iff.rfl
  | mul => cases hf; exact Iff.rfl
  | div => cases hf

/-- An operator fails as `unwritable` exactly when it `Computes` a number that is too long. -/
theorem apply_eq_unwritable_iff {op : Operator} {x y : Tagged} :
    op.apply x y = .error .unwritable ↔ ∃ n, op.Computes x y n ∧ Numeral.writable n = false := by
  cases hf : op.integral? with
  | some f =>
      rw [apply_eq_unwritable_iff_onInts hf, onInts_eq_unwritable_iff]
      constructor
      · intro h
        rcases h with ⟨m, n, hx, hy, hw⟩
        exact ⟨f m n, .intro hf hx hy, hw⟩
      · intro h
        rcases h with ⟨_, ⟨hf', hx, hy⟩, hw⟩
        cases hf.symm.trans hf'
        exact ⟨_, _, hx, hy, hw⟩
  | none =>
      constructor
      · -- quotients are floating-point numbers, which are always written
        intro h
        cases op <;> cases hf
        unfold apply at h
        cases hd : divide x y <;> rw [hd] at h <;> cases h
      · intro h
        rcases h with ⟨_, ⟨hf', -, -⟩, -⟩
        cases hf.symm.trans hf'

theorem applySign_eq_unwritable_iff {sign : String} {x y : Tagged} :
    applySign sign x y = .error .unwritable ↔
      ∃ op n, ofSign? sign = some op ∧ op.Computes x y n ∧ Numeral.writable n = false := by
  unfold applySign
  cases ofSign? sign with
  | none => simp
  | some op => simp [apply_eq_unwritable_iff]

end Operator

/-! ### Assignments -/

namespace Memory

/-- The parts of a `setVar` that are read whatever it computes. -/
structure Operands (m : Memory) (s : Statement) (name : String) (sign first : Tagged) : Prop where
  target : Memory.target s = .ok name
  sign : m.arg s Statement.assignArg = .ok sign
  first : m.arg s Statement.operandArg = .ok first

/-- The value that a compound assignment of `name` changes: that of the local variable, or else
of the global one. -/
def held? (m : Memory) (name : String) : Option Tagged :=
  (m.locals.get? name).or (m.globals.get? name)

/-- A `setVar` computes an integer: by its binary operator, or by the operator of a compound
assignment. -/
inductive Computes (m : Memory) (s : Statement) : Int → Prop
  | binary {name : String} {sign first operator second : Tagged} {op : Operator} {n : Int}
      (h : m.Operands s name sign first)
      (hoperator : m.arg s Statement.operatorArg = .ok operator)
      (hsecond : m.arg s Statement.secondArg = .ok second)
      (hop : Operator.ofSign? operator.payload = some op)
      (hn : op.Computes first second n) : Computes m s n
  | compound {name : String} {sign first v held current : Tagged} {op : Operator} {n : Int}
      (h : m.Operands s name sign first) (hv : m.rightSide s first = .ok v)
      (hop : Assignment.ofSign? sign.payload = some (.update op))
      (hheld : m.held? name = some held) (hcurrent : m.eval held = .ok current)
      (hn : op.Computes current v n) : Computes m s n

variable {m : Memory} {s : Statement}

theorem contains_of_arg {name : String} {v : Tagged} (h : m.arg s name = .ok v) :
    s.args.contains name = true := by
  unfold arg at h
  unfold Store.contains
  cases hv : s.args.get? name with
  | none => rw [hv] at h; cases h
  | some v => rfl

theorem mapError_operator_eq_unwritable_iff {α : Type} {r : Except (Failure OperatorError) α} :
    r.mapError (·.map BindingError.operator) = .error .unwritable ↔ r = .error .unwritable := by
  cases r with
  | ok v => simp [mapError_ok]
  | error f => cases f <;> simp [mapError_error, Failure.map]

/-- The right side is `unwritable` exactly if its operator computes a number that is too long.
-/
theorem rightSide_eq_unwritable_iff {first : Tagged} :
    m.rightSide s first = .error .unwritable ↔
      ∃ operator second op n, m.arg s Statement.operatorArg = .ok operator ∧
        m.arg s Statement.secondArg = .ok second ∧ Operator.ofSign? operator.payload = some op ∧
        op.Computes first second n ∧ Numeral.writable n = false := by
  constructor
  · intro h
    unfold rightSide at h
    split at h
    · cases ho : m.arg s Statement.operatorArg with
      | error e => rw [ho] at h; cases h
      | ok operator =>
          cases hs : m.arg s Statement.secondArg with
          | error e => rw [ho, hs] at h; cases h
          | ok second =>
              rw [ho, hs] at h
              obtain ⟨op, n, hop, hn, hw⟩ := Operator.applySign_eq_unwritable_iff.1
                (mapError_operator_eq_unwritable_iff.1 h)
              exact ⟨operator, second, op, n, rfl, rfl, hop, hn, hw⟩
    · cases h
    · cases h
  · intro h
    rcases h with ⟨operator, second, op, n, ho, hs, hop, hn, hw⟩
    simp only [rightSide, contains_of_arg ho, contains_of_arg hs, ho, hs]
    exact mapError_operator_eq_unwritable_iff.2
      (Operator.applySign_eq_unwritable_iff.2 ⟨op, n, hop, hn, hw⟩)

theorem combine_eq_unwritable_iff {op : Operator} {held v : Tagged} :
    m.combine op held v = .error .unwritable ↔
      ∃ current n, m.eval held = .ok current ∧ op.Computes current v n ∧
        Numeral.writable n = false := by
  unfold combine
  cases m.eval held with
  | error e => simp
  | ok current =>
      simp only [mapError_operator_eq_unwritable_iff, Operator.apply_eq_unwritable_iff,
        Except.ok.injEq, exists_and_left, exists_eq_left']

theorem map_eq_unwritable_iff {α β : Type} {f : α → β} {r : Except (Failure BindingError) α} :
    r.map f = .error .unwritable ↔ r = .error .unwritable := by
  cases r <;> simp [Except.map]

/-- A compound assignment is `unwritable` exactly if what its operator computes from the value
that is `held?` is too long. -/
theorem compound_eq_unwritable_iff {name : String} {op : Operator} {v : Tagged} :
    m.compound name op v = .error .unwritable ↔
      ∃ held current n, m.held? name = some held ∧ m.eval held = .ok current ∧
        op.Computes current v n ∧ Numeral.writable n = false := by
  unfold compound held?
  cases m.locals.get? name with
  | some held =>
      simp only [map_eq_unwritable_iff, combine_eq_unwritable_iff, Option.some_or,
        Option.some.injEq, exists_and_left, exists_eq_left']
  | none =>
      cases m.globals.get? name with
      | some held =>
          simp only [map_eq_unwritable_iff, combine_eq_unwritable_iff, Option.none_or,
            Option.some.injEq, exists_and_left, exists_eq_left']
      | none => simp

theorem assign_eq_unwritable_iff {name sign : String} {v : Tagged} :
    m.assign name sign v = .error .unwritable ↔
      ∃ op held current n, Assignment.ofSign? sign = some (.update op) ∧
        m.held? name = some held ∧ m.eval held = .ok current ∧
        op.Computes current v n ∧ Numeral.writable n = false := by
  unfold assign
  cases Assignment.ofSign? sign with
  | none => simp
  | some assignment =>
      cases assignment with
      | toGlobal => simp
      | toLocal => simp
      | update op =>
          simp only [compound_eq_unwritable_iff, Option.some.injEq, Assignment.update.injEq,
            exists_and_left, exists_eq_left']

/-- A `setVar` fails as `unwritable` exactly when it `Computes` a number that is too long. -/
theorem setVar_eq_unwritable_iff :
    m.setVar s = .error .unwritable ↔ ∃ n, m.Computes s n ∧ Numeral.writable n = false := by
  constructor
  · intro h
    unfold setVar at h
    cases htarget : target s with
    | error e => rw [htarget] at h; cases h
    | ok name =>
        cases hsign : m.arg s Statement.assignArg with
        | error e => rw [htarget, hsign] at h; cases h
        | ok sign =>
            cases hfirst : m.arg s Statement.operandArg with
            | error e => rw [htarget, hsign, hfirst] at h; cases h
            | ok first =>
                rw [htarget, hsign, hfirst] at h
                dsimp only at h
                have hoperands : m.Operands s name sign first := ⟨htarget, hsign, hfirst⟩
                -- the binary operator comes first; only its result is assigned
                cases hv : m.rightSide s first with
                | error f =>
                    rw [hv] at h
                    cases h
                    obtain ⟨operator, second, op, n, ho, hs, hop, hn, hw⟩ :=
                      rightSide_eq_unwritable_iff.1 hv
                    exact ⟨n, .binary hoperands ho hs hop hn, hw⟩
                | ok v =>
                    rw [hv] at h
                    obtain ⟨op, held, current, n, hop, hheld, hcurrent, hn, hw⟩ :=
                      assign_eq_unwritable_iff.1 h
                    exact ⟨n, .compound hoperands hv hop hheld hcurrent hn, hw⟩
  · intro h
    rcases h with ⟨n, hn, hw⟩
    cases hn with
    | binary h hoperator hsecond hop hn =>
        have hv := rightSide_eq_unwritable_iff.2 ⟨_, _, _, n, hoperator, hsecond, hop, hn, hw⟩
        simp only [setVar, h.target, h.sign, h.first, hv]
    | compound h hv hop hheld hcurrent hn =>
        simp only [setVar, h.target, h.sign, h.first, hv]
        exact assign_eq_unwritable_iff.2 ⟨_, _, _, n, hop, hheld, hcurrent, hn, hw⟩

end Memory

/-! ### Instructions -/

theorem Failure.showing_eq_unwritable_iff {ε : Type} {shown : List Int} {e : ε} :
    Failure.showing shown e = .unwritable ↔ ∃ n ∈ shown, Numeral.writable n = false := by
  unfold showing
  cases h : shown.all Numeral.writable with
  | true => simpa using h
  | false => simpa using h

/-- The value of an argument is the integer `n`, which does not fit its field. -/
inductive Param.Misfits (p : Param) (actuals : Store) : Int → Prop
  | intro {v : Tagged} {t : FieldType} {n : Int} (hv : p.value actuals = .ok v)
      (ht : FieldType.ofName? p.type = some t) (hn : v.fieldInt? = some n)
      (hrange : ¬ (t.low ≤ n ∧ n ≤ t.high)) : Misfits p actuals n

/-- To pack a value is `unwritable` exactly if it is an integer that does not fit and is too
long to be shown. -/
theorem packField_eq_unwritable_iff {type : String} {v : Tagged} :
    packField type v = .error .unwritable ↔
      ∃ t n, FieldType.ofName? type = some t ∧ v.fieldInt? = some n ∧
        ¬ (t.low ≤ n ∧ n ≤ t.high) ∧ Numeral.writable n = false := by
  unfold packField
  cases FieldType.ofName? type with
  | none => simp
  | some t =>
      cases v.fieldInt? with
      | none => simp
      | some n =>
          dsimp only
          by_cases hrange : t.low ≤ n ∧ n ≤ t.high
          · rw [if_pos hrange]
            refine ⟨nofun, ?_⟩
            intro h
            rcases h with ⟨_, _, ht, hn, hmisfit, -⟩
            cases ht
            cases hn
            exact absurd hrange hmisfit
          · rw [if_neg hrange, Except.error.injEq, Failure.showing_eq_unwritable_iff]
            constructor
            · intro h
              rcases h with ⟨k, hk, hw⟩
              rw [List.mem_singleton.1 hk] at hw
              exact ⟨t, n, rfl, rfl, hrange, hw⟩
            · intro h
              rcases h with ⟨_, _, -, hn, -, hw⟩
              cases hn
              exact ⟨n, List.mem_singleton_self n, hw⟩

theorem Param.Misfits.encode {p : Param} {actuals : Store} {n : Int} (h : p.Misfits actuals n)
    (instruction : String) :
    p.encode instruction actuals =
      .error ((Failure.showing [n] (.outOfRange p.type n)).map (.field instruction p.name)) := by
  obtain ⟨hv, ht, hn, hrange⟩ := h
  simp only [Param.encode, hv, packField, ht, hn, if_neg hrange]

/-- An argument is `unwritable` exactly if it `Misfits` its field by a number that is too long.
-/
theorem Param.encode_eq_unwritable_iff {instruction : String} {actuals : Store} {p : Param} :
    p.encode instruction actuals = .error .unwritable ↔
      ∃ n, p.Misfits actuals n ∧ Numeral.writable n = false := by
  constructor
  · intro h
    unfold Param.encode at h
    cases hv : p.value actuals with
    | error e => rw [hv] at h; cases h
    | ok v =>
        rw [hv] at h
        dsimp only at h
        cases hpack : packField p.type v with
        | ok bs => rw [hpack] at h; cases h
        | error f =>
            rw [hpack] at h
            cases f with
            | error e => cases h
            | unwritable =>
                obtain ⟨t, n, ht, hn, hrange, hw⟩ := packField_eq_unwritable_iff.1 hpack
                exact ⟨n, .intro hv ht hn hrange, hw⟩
  · intro h
    rcases h with ⟨n, hn, hw⟩
    have hshow : Failure.showing [n] (PackError.outOfRange p.type n) = .unwritable :=
      Failure.showing_eq_unwritable_iff.2 ⟨n, List.mem_singleton_self n, hw⟩
    rw [hn.encode, hshow]
    rfl

section EncodeParams

variable {instruction : String} {actuals : Store} {p : Param} {ps : List Param}

theorem encodeParams_cons_eq_error_iff {f : Failure EncodeError} :
    encodeParams instruction actuals (p :: ps) = .error f ↔
      p.encode instruction actuals = .error f ∨
      ∃ bs, p.encode instruction actuals = .ok bs ∧
        encodeParams instruction actuals ps = .error f := by
  rw [encodeParams]
  cases p.encode instruction actuals with
  | error g => simp
  | ok bs => cases encodeParams instruction actuals ps <;> simp

/-- The first argument for which `encode` fails decides how `encodeParams` does. -/
theorem encodeParams_eq_error_iff {f : Failure EncodeError} :
    encodeParams instruction actuals ps = .error f ↔
      ∃ before p after bs, ps = before ++ p :: after ∧
        encodeParams instruction actuals before = .ok bs ∧
        p.encode instruction actuals = .error f := by
  induction ps with
  | nil => simp [encodeParams]
  | cons q ps ih =>
      rw [encodeParams_cons_eq_error_iff]
      constructor
      · intro h
        rcases h with hq | ⟨bs₀, hq, htail⟩
        · exact ⟨[], q, ps, [], rfl, rfl, hq⟩
        · obtain ⟨before, p, after, bs, rfl, hbefore, hp⟩ := ih.1 htail
          have hdata := encodeParams_cons_eq_ok_iff.2 ⟨bs₀, bs, hq, hbefore, rfl⟩
          exact ⟨q :: before, p, after, bs₀ ++ bs, rfl, hdata, hp⟩
      · intro h
        obtain ⟨before, p, after, bs, hps, hbefore, hp⟩ := h
        cases before with
        | nil =>
            cases hps
            exact .inl hp
        | cons b before =>
            cases hps
            obtain ⟨bs₀, rest, hq, hrest, -⟩ := encodeParams_cons_eq_ok_iff.1 hbefore
            exact .inr ⟨bs₀, hq, ih.2 ⟨before, p, after, rest, rfl, hrest, hp⟩⟩

end EncodeParams

/-- The encoder writes the integer `n` when it fails: one that does not fit its field, or the
size that a frame has not. -/
inductive Instruction.EncodeWrites (i : Instruction) (frameSize : Option Int) (actuals : Store) :
    Int → Prop
  | field {before after : List Param} {p : Param} {bs : Bytes} {n : Int}
      (hparams : i.params = before ++ p :: after)
      (hbefore : encodeParams i.name actuals before = .ok bs)
      (hn : p.Misfits actuals n) : EncodeWrites i frameSize actuals n
  | size {data : Bytes} {n : Int} (hdata : encodeParams i.name actuals i.params = .ok data)
      (hsize : frameSize = some n) (hne : (data.length : Int) ≠ n) :
      EncodeWrites i frameSize actuals n

theorem Instruction.encode_eq_unwritable_iff {i : Instruction} {frameSize : Option Int}
    {actuals : Store} :
    i.encode frameSize actuals = .error .unwritable ↔
      ∃ n, i.EncodeWrites frameSize actuals n ∧ Numeral.writable n = false := by
  constructor
  · intro h
    unfold Instruction.encode at h
    cases hdata : encodeParams i.name actuals i.params with
    | error f =>
        rw [hdata] at h
        cases h
        obtain ⟨before, p, after, bs, hparams, hbefore, hp⟩ := encodeParams_eq_error_iff.1 hdata
        obtain ⟨n, hn, hw⟩ := Param.encode_eq_unwritable_iff.1 hp
        exact ⟨n, .field hparams hbefore hn, hw⟩
    | ok data =>
        rw [hdata] at h
        cases frameSize with
        | none => cases h
        | some size =>
            dsimp only at h
            split at h
            · cases h
            · rename_i hne
              rw [Except.error.injEq, Failure.showing_eq_unwritable_iff] at h
              obtain ⟨n, hn, hw⟩ := h
              rw [List.mem_singleton.1 hn] at hw
              exact ⟨size, .size hdata rfl hne, hw⟩
  · intro h
    rcases h with ⟨n, hn, hw⟩
    unfold Instruction.encode
    cases hn with
    | @field before after p bs n hparams hbefore hn =>
        have hp : p.encode i.name actuals = .error .unwritable :=
          Param.encode_eq_unwritable_iff.2 ⟨n, hn, hw⟩
        have hdata := encodeParams_eq_error_iff.2 ⟨before, p, after, bs, hparams, hbefore, hp⟩
        simp only [hdata]
    | @size data n hdata hsize hne =>
        have hshown : Failure.showing [n] (EncodeError.size i.name data.length n) = .unwritable :=
          Failure.showing_eq_unwritable_iff.2 ⟨n, List.mem_singleton_self n, hw⟩
        simp only [hdata, hsize, if_neg hne, hshown]

theorem Instruction.canId_of_encode {i : Instruction} {frameSize : Option Int} {actuals : Store}
    {frame : Frame} (h : i.encode frameSize actuals = .ok frame) : frame.canId = i.canId := by
  unfold Instruction.encode at h
  split at h
  · cases h
  · split at h
    · cases h
      rfl
    · split at h
      · cases h
        rfl
      · cases h

/-- A frame is not rendered exactly if its identifier is a number that is too long. -/
theorem Frame.render?_eq_none_iff {frame : Frame} :
    frame.render? = none ↔ ∃ n, frame.canId = .number n ∧ Numeral.writable n = false := by
  unfold Frame.render? BusId.render? Numeral.write?
  cases frame.canId with
  | blank => simp
  | number n => cases hw : Numeral.writable n <;> simp [hw]

namespace Engine

variable {E : Engine}

/-- Sending the instruction `name` writes an integer: the encoder does (`EncodeWrites`), or it
is the identifier of the frame. -/
inductive SendWrites (E : Engine) (name : String) (actuals : Store) : Int → Prop
  | encode {i : Instruction} {n : Int} (hi : E.findInstruction? name = some i)
      (hn : i.EncodeWrites E.frameSize actuals n) : SendWrites E name actuals n
  | id {i : Instruction} {frame : Frame} {n : Int} (hi : E.findInstruction? name = some i)
      (hframe : i.encode E.frameSize actuals = .ok frame) (hid : i.canId = .number n) :
      SendWrites E name actuals n

/-- What becomes of a `send`: a frame is sent, the instruction is unknown, it fails with an
encoding error that is logged, or an integer is too long. -/
theorem send_cases (E : Engine) (name : String) (actuals : Store) (w : World) :
    (∃ frame text, E.send name actuals w =
      (.ok frame, (w.log .info text).record (.send frame))) ∨
    (E.findInstruction? name = none ∧ E.send name actuals w =
      (.error (.error (.unknown .instruction name)),
        w.log .error (Fault.unknown .instruction name).message)) ∨
    (∃ e, E.send name actuals w = (.error (.error (.encoding e)), w.log .fatal e.message)) ∨
    ∃ n, E.SendWrites name actuals n ∧ Numeral.writable n = false ∧
      E.send name actuals w = (.error .unwritable, w) := by
  unfold send
  cases hi : E.findInstruction? name with
  | none => exact .inr (.inl ⟨rfl, rfl⟩)
  | some i =>
      dsimp only
      cases hframe : i.encode E.frameSize actuals with
      | error f =>
          cases f with
          | error e => exact .inr (.inr (.inl ⟨e, rfl⟩))
          | unwritable =>
              obtain ⟨n, hn, hw⟩ := Instruction.encode_eq_unwritable_iff.1 hframe
              exact .inr (.inr (.inr ⟨n, .encode hi hn, hw, rfl⟩))
      | ok frame =>
          dsimp only
          -- a frame that is encoded is still shown before it is sent
          cases htext : frame.render? with
          | some text => exact .inl ⟨frame, _, rfl⟩
          | none =>
              obtain ⟨n, hid, hw⟩ := Frame.render?_eq_none_iff.1 htext
              rw [Instruction.canId_of_encode hframe] at hid
              exact .inr (.inr (.inr ⟨n, .id hi hframe hid, hw, rfl⟩))

/-- A `send` that has to write a number that is too long does nothing else. -/
theorem send_of_sendWrites {name : String} {actuals : Store} {n : Int}
    (hn : E.SendWrites name actuals n) (hw : Numeral.writable n = false) (w : World) :
    E.send name actuals w = (.error .unwritable, w) := by
  unfold send
  cases hn with
  | @encode i n hi hn =>
      have hencode := Instruction.encode_eq_unwritable_iff.2 ⟨n, hn, hw⟩
      simp only [hi, hencode]
  | @id i frame n hi hframe hid =>
      rw [← Instruction.canId_of_encode hframe] at hid
      have hrender := Frame.render?_eq_none_iff.2 ⟨n, hid, hw⟩
      simp only [hi, hframe, hrender]

/-- A `send` fails as `unwritable` exactly when it `SendWrites` a number that is too long. -/
theorem send_eq_unwritable_iff {name : String} {actuals : Store} {w : World} :
    (E.send name actuals w).1 = .error .unwritable ↔
      ∃ n, E.SendWrites name actuals n ∧ Numeral.writable n = false := by
  constructor
  · intro h
    obtain ⟨frame, text, hsend⟩ | ⟨-, hsend⟩ | ⟨e, hsend⟩ | ⟨n, hn, hw, -⟩ :=
      E.send_cases name actuals w
    · rw [hsend] at h; cases h
    · rw [hsend] at h; cases h
    · rw [hsend] at h; cases h
    · exact ⟨n, hn, hw⟩
  · intro h
    rcases h with ⟨n, hn, hw⟩
    rw [send_of_sendWrites hn hw]

/-- The first argument that `Misfits` its field is an encoding error, unless it is too long to
be shown. -/
theorem send_of_misfits {name : String} {actuals : Store} {i : Instruction}
    {before after : List Param} {p : Param} {bs : Bytes} {n : Int}
    (hi : E.findInstruction? name = some i) (hparams : i.params = before ++ p :: after)
    (hbefore : encodeParams i.name actuals before = .ok bs) (hn : p.Misfits actuals n)
    (w : World) :
    E.send name actuals w =
      if Numeral.writable n then
        (.error (.error (.encoding (.field i.name p.name (.outOfRange p.type n)))),
          w.log .fatal (EncodeError.field i.name p.name (.outOfRange p.type n)).message)
      else (.error .unwritable, w) := by
  have hdata := encodeParams_eq_error_iff.2
    ⟨before, p, after, bs, hparams, hbefore, hn.encode i.name⟩
  cases hw : Numeral.writable n with
  | true =>
      have hshow : Failure.showing [n] (PackError.outOfRange p.type n) =
          .error (.outOfRange p.type n) := by
        simp only [Failure.showing, List.all_cons, hw, List.all_nil, Bool.and_self, if_true]
      simp only [send, hi, Instruction.encode, hdata, hshow, Failure.map, if_true]
  | false =>
      rw [if_neg Bool.false_ne_true]
      exact send_of_sendWrites (.encode hi (.field hparams hbefore hn)) hw w

end Engine

end BusScript
