import BusScript.Proofs.Decoding
import BusScript.Proofs.Overlong
import BusScript.Proofs.Reference

/-!
# What the encoder accepts

An instruction is encoded exactly if each of its arguments has a value
(`Param.Takes`), that value is an integer which the declared field holds
(`Tagged.Fits`), and the fields fill the frame. The conditions are said here
without the encoder, in terms of paths of references, tags, integers and powers
of two.

Each way to fail has its counterpart with what is reported about it:
`Param.Lacks` for an argument without a value, `Misfit` for a value that is not
packed. Both are exact, so the two sides exclude one another, and the first
argument that is refused decides: `encodeParams_eq_error_iff_refuses`. The size
of the frame is looked at last.
-/

namespace BusScript

/-! ### Fields -/

namespace FieldType

variable {t : FieldType} {name : String} {n : Int}

theorem ofName?_eq_some_iff : ofName? name = some t ↔ t.name = name := by
  constructor
  · intro h
    simpa using List.find?_some h
  · rintro rfl
    cases t <;> rfl

theorem ofName?_eq_none_iff : ofName? name = none ↔ ∀ t : FieldType, t.name ≠ name := by
  rw [Option.eq_none_iff_forall_ne_some]
  exact forall_congr' fun t => not_congr ofName?_eq_some_iff

/-- The integers that a field takes: those of its `bits` without a sign, and for `signed` types
also those with one. -/
def Holds (t : FieldType) (n : Int) : Prop :=
  (if t.signed then -2 ^ (t.bits - 1) else 0) ≤ n ∧ n ≤ 2 ^ t.bits - 1

/-- The range of `Holds`, said with powers of two, is the one from `low` to `high`. -/
theorem holds_iff : t.Holds n ↔ t.low ≤ n ∧ n ≤ t.high := by
  have hlow : t.low = if t.signed then -2 ^ (t.bits - 1) else 0 := by cases t <;> decide
  have hhigh : t.high = 2 ^ t.bits - 1 := by cases t <;> decide
  rw [Holds, hlow, hhigh]

theorem length_encode (t : FieldType) (n : Int) : (t.encode n).length = t.width :=
  Bytes.length_ofNat ..

end FieldType

namespace Tagged

variable {v : Tagged} {n : Int}

theorem fieldInt?_eq_some_iff : v.fieldInt? = some n ↔
    v.tag ≠ Kind.float.tag ∧ v.tag ≠ Kind.str.tag ∧ v.toInt = .ok n := by
  unfold fieldInt?
  cases v.toInt <;> simp [Except.toOption, and_assoc]

/-- A value is no integer for a field exactly if its tag rules it out or `toInt` fails. -/
theorem fieldInt?_eq_none_iff : v.fieldInt? = none ↔
    v.tag = Kind.float.tag ∨ v.tag = Kind.str.tag ∨ ∃ e, v.toInt = .error e := by
  unfold fieldInt?
  cases v.toInt <;> simp [Except.toOption, or_iff_not_imp_left]

/-- The value `v` is the integer `n`, which a field of type `t` holds, and neither a text nor a
floating-point number. -/
structure Fits (v : Tagged) (t : FieldType) (n : Int) : Prop where
  notFloat : v.tag ≠ Kind.float.tag
  notText : v.tag ≠ Kind.str.tag
  integer : v.toInt = .ok n
  range : t.Holds n

end Tagged

/-- Why `packField` refuses the value `v`: there is no such type, the value is no integer, or
the field does not hold it. -/
inductive Misfit (type : String) (v : Tagged) : Failure PackError → Prop
  | unsupported (htype : ∀ t : FieldType, t.name ≠ type) :
      Misfit type v (.error (.unsupported type))
  | invalid {t : FieldType} (htype : t.name = type)
      (hv : v.tag = Kind.float.tag ∨ v.tag = Kind.str.tag ∨ ∃ e, v.toInt = .error e) :
      Misfit type v (.error (.invalid type v))
  | outOfRange {t : FieldType} {n : Int} (htype : t.name = type)
      (hfloat : v.tag ≠ Kind.float.tag) (htext : v.tag ≠ Kind.str.tag)
      (hinteger : v.toInt = .ok n) (hrange : ¬ t.Holds n) :
      Misfit type v (.showing [n] (.outOfRange type n))

section

variable {type : String} {v : Tagged}

/-- A value is packed by `packField` exactly if it `Fits`. -/
theorem packField_eq_ok_iff_fits {bs : Bytes} :
    packField type v = .ok bs ↔ ∃ t n, t.name = type ∧ v.Fits t n ∧ t.encode n = bs := by
  rw [packField_eq_ok_iff]
  constructor
  · rintro ⟨t, n, htype, hint, hrange, rfl⟩
    obtain ⟨hfloat, htext, hinteger⟩ := Tagged.fieldInt?_eq_some_iff.1 hint
    have hholds := FieldType.holds_iff.2 hrange
    exact ⟨t, n, FieldType.ofName?_eq_some_iff.1 htype, ⟨hfloat, htext, hinteger, hholds⟩, rfl⟩
  · rintro ⟨t, n, htype, hfits, rfl⟩
    have hint := Tagged.fieldInt?_eq_some_iff.2 ⟨hfits.notFloat, hfits.notText, hfits.integer⟩
    exact ⟨t, n, FieldType.ofName?_eq_some_iff.2 htype, hint, FieldType.holds_iff.1 hfits.range,
      rfl⟩

/-- A value is refused by `packField` exactly for the `Misfit` that it has. -/
theorem packField_eq_error_iff {f : Failure PackError} :
    packField type v = .error f ↔ Misfit type v f := by
  constructor
  · intro h
    unfold packField at h
    cases htype : FieldType.ofName? type with
    | none =>
        rw [htype] at h
        cases h
        exact .unsupported (FieldType.ofName?_eq_none_iff.1 htype)
    | some t =>
        rw [htype] at h
        have hname := FieldType.ofName?_eq_some_iff.1 htype
        dsimp only at h
        cases hint : v.fieldInt? with
        | none =>
            rw [hint] at h
            cases h
            exact .invalid hname (Tagged.fieldInt?_eq_none_iff.1 hint)
        | some n =>
            rw [hint] at h
            dsimp only at h
            split at h
            · cases h
            · rename_i hrange
              rw [← Except.error.inj h]
              obtain ⟨hfloat, htext, hinteger⟩ := Tagged.fieldInt?_eq_some_iff.1 hint
              exact .outOfRange hname hfloat htext hinteger (mt FieldType.holds_iff.1 hrange)
  · intro h
    unfold packField
    cases h with
    | unsupported htype => rw [FieldType.ofName?_eq_none_iff.2 htype]
    | invalid htype hv =>
        simp only [FieldType.ofName?_eq_some_iff.2 htype, Tagged.fieldInt?_eq_none_iff.2 hv]
    | outOfRange htype hfloat htext hinteger hrange =>
        have hint := Tagged.fieldInt?_eq_some_iff.2 ⟨hfloat, htext, hinteger⟩
        simp only [FieldType.ofName?_eq_some_iff.2 htype, hint,
          if_neg (mt FieldType.holds_iff.2 hrange)]

end

/-! ### Arguments -/

namespace Param

/-- The value `v` that an argument is encoded with. A bound argument has the value at the end of
its path of references, and its `default` does not count; an unbound one has its default. -/
inductive Takes (actuals : Store) (p : Param) (v : Tagged) : Prop
  | bound {u : Tagged} {k : Nat} (hbound : actuals.get? p.name = some u)
      (hends : Scopes.EndsAfter [actuals] k p.name (some v))
  | default (hbound : actuals.get? p.name = none) (hdefault : p.default ≠ "")
      (hv : v = .parse p.default)

/-- Why an argument has no value among the `actuals`: its references come back to themselves or
lead to nothing, or it is neither bound nor has a `default`. -/
inductive Lacks (actuals : Store) (p : Param) : EncodeError → Prop
  | cyclic {u : Tagged} {cycle : Cycle} (hbound : actuals.get? p.name = some u)
      (hback : Scopes.ComesBack [actuals] p.name cycle.chain) :
      Lacks actuals p (.cyclic p.name cycle)
  | dangling {u : Tagged} {k : Nat} (hbound : actuals.get? p.name = some u)
      (hends : Scopes.EndsAfter [actuals] k p.name none) :
      Lacks actuals p (.dangling p.name u)
  | missing (hbound : actuals.get? p.name = none) (hdefault : p.default = "") :
      Lacks actuals p (.missing p.name)

/-- An argument goes into its field, of type `t`, as the integer `n`. -/
structure Carries (actuals : Store) (p : Param) (t : FieldType) (n : Int) : Prop where
  type : t.name = p.type
  fits : ∃ v, p.Takes actuals v ∧ v.Fits t n

/-- There is an integer that an argument `Carries`. -/
def Accepted (actuals : Store) (p : Param) : Prop := ∃ t n, p.Carries actuals t n

/-- Why an argument is refused: it `Lacks` a value, or has one that is a `Misfit`. -/
inductive Refuses (instruction : String) (actuals : Store) (p : Param) :
    Failure EncodeError → Prop
  | value {e : EncodeError} (h : p.Lacks actuals e) : Refuses instruction actuals p (.error e)
  | field {v : Tagged} {f : Failure PackError} (hv : p.Takes actuals v)
      (h : Misfit p.type v f) :
      Refuses instruction actuals p (f.map (.field instruction p.name))

variable {instruction : String} {actuals : Store} {p : Param}

/-- The value of an argument, as `Param.value` computes it, is the one that it `Takes`. -/
theorem value_eq_ok_iff {v : Tagged} : p.value actuals = .ok v ↔ p.Takes actuals v := by
  unfold value
  constructor
  · intro h
    cases hbound : actuals.get? p.name with
    | none =>
        rw [hbound] at h
        dsimp only at h
        split at h
        · cases h
        · rename_i hdefault
          exact .default hbound hdefault (Except.ok.inj h).symm
    | some u =>
        rw [hbound] at h
        dsimp only at h
        split at h
        · cases h
        · cases h
        · rename_i hresolve
          cases h
          obtain ⟨k, hends⟩ := Scopes.resolve_eq_ok_iff.1 hresolve
          exact .bound hbound hends
  · intro h
    cases h with
    | bound hbound hends =>
        have hresolve := Scopes.resolve_eq_ok_iff.2 ⟨_, hends⟩
        simp only [hbound, hresolve]
    | default hbound hdefault hv => simp only [hbound, if_neg hdefault, hv]

/-- An argument fails to have a value exactly for the reason for which it `Lacks` one. -/
theorem value_eq_error_iff {e : EncodeError} :
    p.value actuals = .error e ↔ p.Lacks actuals e := by
  unfold value
  constructor
  · intro h
    cases hbound : actuals.get? p.name with
    | none =>
        rw [hbound] at h
        dsimp only at h
        split at h
        · rename_i hdefault
          cases h
          exact .missing hbound hdefault
        · cases h
    | some u =>
        rw [hbound] at h
        dsimp only at h
        split at h
        · rename_i hresolve
          cases h
          exact .cyclic hbound (Scopes.comesBack_of_resolve hresolve)
        · rename_i hresolve
          cases h
          obtain ⟨k, hends⟩ := Scopes.resolve_eq_ok_iff.1 hresolve
          exact .dangling hbound hends
        · cases h
  · intro h
    cases h with
    | cyclic hbound hback =>
        simp only [hbound, Scopes.resolve_eq_error_iff_comesBack.2 hback]
    | dangling hbound hends =>
        have hresolve := Scopes.resolve_eq_ok_iff.2 ⟨_, hends⟩
        simp only [hbound, hresolve]
    | missing hbound hdefault => simp only [hbound, if_pos hdefault]

/-- An argument is encoded exactly to the bytes of the integer that it `Carries`. -/
theorem encode_eq_ok_iff_carries {bs : Bytes} :
    p.encode instruction actuals = .ok bs ↔
      ∃ t n, p.Carries actuals t n ∧ t.encode n = bs := by
  rw [encode_eq_ok_iff]
  constructor
  · rintro ⟨v, hvalue, hpack⟩
    obtain ⟨t, n, htype, hfits, hbs⟩ := packField_eq_ok_iff_fits.1 hpack
    exact ⟨t, n, ⟨htype, v, value_eq_ok_iff.1 hvalue, hfits⟩, hbs⟩
  · rintro ⟨t, n, ⟨htype, v, htakes, hfits⟩, hbs⟩
    exact ⟨v, value_eq_ok_iff.2 htakes, packField_eq_ok_iff_fits.2 ⟨t, n, htype, hfits, hbs⟩⟩

/-- An argument is not encoded exactly for the reason for which `Refuses` refuses it. -/
theorem encode_eq_error_iff {f : Failure EncodeError} :
    p.encode instruction actuals = .error f ↔ p.Refuses instruction actuals f := by
  unfold encode
  constructor
  · intro h
    cases hvalue : p.value actuals with
    | error e =>
        rw [hvalue] at h
        cases h
        exact .value (value_eq_error_iff.1 hvalue)
    | ok v =>
        rw [hvalue] at h
        dsimp only at h
        cases hpack : packField p.type v with
        | ok bs => rw [hpack] at h; cases h
        | error f =>
            rw [hpack] at h
            cases h
            exact .field (value_eq_ok_iff.1 hvalue) (packField_eq_error_iff.1 hpack)
  · intro h
    cases h with
    | value h => simp only [value_eq_error_iff.2 h]
    | field hv h => simp only [value_eq_ok_iff.2 hv, packField_eq_error_iff.2 h]

theorem Carries.encode {t : FieldType} {n : Int} (h : p.Carries actuals t n)
    (instruction : String) : p.encode instruction actuals = .ok (t.encode n) :=
  encode_eq_ok_iff_carries.2 ⟨t, n, h, rfl⟩

/-- An argument is refused exactly if it is not `Accepted`. -/
theorem exists_refuses_iff :
    (∃ f, p.Refuses instruction actuals f) ↔ ¬ p.Accepted actuals := by
  constructor
  · rintro ⟨f, hf⟩ ⟨t, n, hcarries⟩
    cases (encode_eq_error_iff.2 hf).symm.trans (hcarries.encode instruction)
  · intro hnot
    cases h : p.encode instruction actuals with
    | error f => exact ⟨f, encode_eq_error_iff.1 h⟩
    | ok bs =>
        obtain ⟨t, n, hcarries, -⟩ := encode_eq_ok_iff_carries.1 h
        exact absurd ⟨t, n, hcarries⟩ hnot

theorem Carries.width_eq {t : FieldType} {n : Int} (h : p.Carries actuals t n) :
    p.width = t.width := by
  rw [width, FieldType.ofName?_eq_some_iff.2 h.type, Option.elim_some]

/-- A bound argument whose references do not lead to a value has none, whatever its `default`.
-/
theorem value_ne_ok {u : Tagged} (hbound : actuals.get? p.name = some u)
    (hends : ∀ k v, ¬ Scopes.EndsAfter [actuals] k p.name (some v)) (default : String)
    (v : Tagged) : ({ p with default } : Param).value actuals ≠ .ok v := by
  intro h
  cases value_eq_ok_iff.1 h with
  | bound _ hends' => exact hends _ _ hends'
  | default hbound' _ _ => cases hbound.symm.trans hbound'

end Param

/-! ### Instructions -/

section

variable {instruction : String} {actuals : Store} {params : List Param}

/-- The data are the fields of what the arguments carry (`Carries`), one after the other. -/
theorem encodeParams_eq_ok_iff_carries {data : Bytes} :
    encodeParams instruction actuals params = .ok data ↔
      ∃ fields : List (FieldType × Int),
        List.Forall₂ (fun p field => p.Carries actuals field.1 field.2) params fields ∧
        data = fields.flatMap fun field => field.1.encode field.2 := by
  induction params generalizing data with
  | nil => simp [encodeParams, eq_comm]
  | cons p params ih =>
      rw [encodeParams_cons_eq_ok_iff]
      constructor
      · rintro ⟨bs, rest, hp, hrest, rfl⟩
        obtain ⟨t, n, hcarries, rfl⟩ := Param.encode_eq_ok_iff_carries.1 hp
        obtain ⟨fields, hfields, rfl⟩ := ih.1 hrest
        exact ⟨(t, n) :: fields, .cons hcarries hfields, rfl⟩
      · rintro ⟨fields, hfields, rfl⟩
        cases hfields with
        | cons hcarries htail =>
            exact ⟨_, _, hcarries.encode instruction, ih.2 ⟨_, htail, rfl⟩, rfl⟩

/-- Data have the length that is declared: the sum of the widths of the arguments. -/
theorem length_of_encodeParams {data : Bytes}
    (h : encodeParams instruction actuals params = .ok data) :
    data.length = (params.map Param.width).sum := by
  obtain ⟨fields, hfields, rfl⟩ := encodeParams_eq_ok_iff_carries.1 h
  clear h
  induction hfields with
  | nil => rfl
  | cons hcarries _ ih =>
      rw [List.flatMap_cons, List.length_append, FieldType.length_encode, ih, List.map_cons,
        List.sum_cons, hcarries.width_eq]

/-- There are data exactly if all arguments are `Accepted`. -/
theorem exists_encodeParams_iff :
    (∃ data, encodeParams instruction actuals params = .ok data) ↔
      ∀ p ∈ params, p.Accepted actuals := by
  induction params with
  | nil => simp [encodeParams]
  | cons p params ih =>
      rw [List.forall_mem_cons, ← ih]
      constructor
      · rintro ⟨data, h⟩
        obtain ⟨bs, rest, hp, hrest, -⟩ := encodeParams_cons_eq_ok_iff.1 h
        obtain ⟨t, n, hcarries, -⟩ := Param.encode_eq_ok_iff_carries.1 hp
        exact ⟨⟨t, n, hcarries⟩, rest, hrest⟩
      · rintro ⟨⟨t, n, hcarries⟩, rest, hrest⟩
        have hp := hcarries.encode instruction
        exact ⟨_, encodeParams_cons_eq_ok_iff.2 ⟨_, _, hp, hrest, rfl⟩⟩

/-- The first argument that is not `Accepted` decides the error of `encodeParams`. -/
theorem encodeParams_eq_error_iff_refuses {f : Failure EncodeError} :
    encodeParams instruction actuals params = .error f ↔
      ∃ before p after, params = before ++ p :: after ∧
        (∀ q ∈ before, q.Accepted actuals) ∧ p.Refuses instruction actuals f := by
  rw [encodeParams_eq_error_iff]
  constructor
  · rintro ⟨before, p, after, bs, hparams, hbefore, hp⟩
    exact ⟨before, p, after, hparams, exists_encodeParams_iff.1 ⟨bs, hbefore⟩,
      Param.encode_eq_error_iff.1 hp⟩
  · rintro ⟨before, p, after, hparams, hbefore, hp⟩
    obtain ⟨bs, hbs⟩ := exists_encodeParams_iff.2 hbefore
    exact ⟨before, p, after, bs, hparams, hbs, Param.encode_eq_error_iff.2 hp⟩

end

namespace Instruction

/-- The number of bytes that the `params` of an instruction are declared to take. -/
def declaredSize (i : Instruction) : Nat := (i.params.map Param.width).sum

/-- Why an instruction is not encoded: an argument is refused and all before it are `Accepted`,
or all are and do not fill the frame. -/
inductive Refuses (i : Instruction) (frameSize : Option Int) (actuals : Store) :
    Failure EncodeError → Prop
  | argument {before after : List Param} {p : Param} {f : Failure EncodeError}
      (hparams : i.params = before ++ p :: after)
      (hbefore : ∀ q ∈ before, q.Accepted actuals) (hp : p.Refuses i.name actuals f) :
      Refuses i frameSize actuals f
  | size {size : Int} (hparams : ∀ p ∈ i.params, p.Accepted actuals)
      (hsize : frameSize = some size) (hne : (i.declaredSize : Int) ≠ size) :
      Refuses i frameSize actuals (.showing [size] (.size i.name i.declaredSize size))

variable {i : Instruction} {frameSize : Option Int} {actuals : Store}

theorem encode_eq_error_iff {f : Failure EncodeError} :
    i.encode frameSize actuals = .error f ↔ i.Refuses frameSize actuals f := by
  unfold encode
  constructor
  · intro h
    cases hdata : encodeParams i.name actuals i.params with
    | error g =>
        rw [hdata] at h
        cases h
        obtain ⟨before, p, after, hparams, hbefore, hp⟩ :=
          encodeParams_eq_error_iff_refuses.1 hdata
        exact .argument hparams hbefore hp
    | ok data =>
        rw [hdata] at h
        have hlength : data.length = i.declaredSize := length_of_encodeParams hdata
        cases frameSize with
        | none => cases h
        | some size =>
            dsimp only at h
            rw [hlength] at h
            split at h
            · cases h
            · rename_i hne
              rw [← Except.error.inj h]
              exact .size (exists_encodeParams_iff.1 ⟨data, hdata⟩) rfl hne
  · intro h
    cases h with
    | argument hparams hbefore hp =>
        simp only [encodeParams_eq_error_iff_refuses.2 ⟨_, _, _, hparams, hbefore, hp⟩]
    | size hparams hsize hne =>
        obtain ⟨data, hdata⟩ : ∃ data, encodeParams i.name actuals i.params = .ok data :=
          exists_encodeParams_iff.2 hparams
        have hlength : data.length = i.declaredSize := length_of_encodeParams hdata
        simp only [hdata, hsize, hlength, if_neg hne]

/-- An instruction is encoded exactly if its arguments are `Accepted` and their `declaredSize`
is the one that is required. -/
theorem exists_encode_iff : (∃ frame, i.encode frameSize actuals = .ok frame) ↔
    (∀ p ∈ i.params, p.Accepted actuals) ∧
      (frameSize = none ∨ frameSize = some (i.declaredSize : Int)) := by
  constructor
  · rintro ⟨frame, h⟩
    obtain ⟨hdata, -, -, hsize⟩ := encode_eq_ok_iff.1 h
    refine ⟨exists_encodeParams_iff.1 ⟨_, hdata⟩, ?_⟩
    have hlength : frame.data.length = i.declaredSize := length_of_encodeParams hdata
    cases frameSize with
    | none => exact .inl rfl
    | some size => exact .inr (by rw [← hsize size rfl, hlength])
  · rintro ⟨hparams, hsize⟩
    obtain ⟨data, hdata⟩ : ∃ data, encodeParams i.name actuals i.params = .ok data :=
      exists_encodeParams_iff.2 hparams
    have hlength : data.length = i.declaredSize := length_of_encodeParams hdata
    refine ⟨⟨i.canId, data, i.name⟩, encode_eq_ok_iff.2 ⟨hdata, rfl, rfl, ?_⟩⟩
    rintro size rfl
    rcases hsize with hnone | hsome
    · cases hnone
    · rw [hlength, Option.some.inj hsome]

/-- **An instruction is encoded exactly if all its arguments are `Accepted` and fill the
frame.** The frame then holds the integers that the arguments carry (`Param.Carries`); otherwise
the first argument that is refused decides the error (`Instruction.Refuses`), and the size of
the frame is an error only behind arguments that are all accepted. An argument that is bound
never falls back to its `default`. -/
theorem encode_accepts (i : Instruction) (frameSize : Option Int) (actuals : Store) :
    ((∃ frame, i.encode frameSize actuals = .ok frame) ↔
      (∀ p ∈ i.params, p.Accepted actuals) ∧
        (frameSize = none ∨ frameSize = some (i.declaredSize : Int))) ∧
    (∀ frame, i.encode frameSize actuals = .ok frame →
      ∃ fields : List (FieldType × Int),
        List.Forall₂ (fun p field => p.Carries actuals field.1 field.2) i.params fields ∧
        frame = ⟨i.canId, fields.flatMap fun field => field.1.encode field.2, i.name⟩) ∧
    (∀ f, i.encode frameSize actuals = .error f ↔ i.Refuses frameSize actuals f) ∧
    (∀ p ∈ i.params, (∃ f, p.Refuses i.name actuals f) ↔ ¬ p.Accepted actuals) ∧
    ∀ p ∈ i.params, ∀ u, actuals.get? p.name = some u →
      (∀ k v, ¬ Scopes.EndsAfter [actuals] k p.name (some v)) →
      (∀ default v, ({ p with default } : Param).value actuals ≠ .ok v) ∧
        ∀ frame, i.encode frameSize actuals ≠ .ok frame := by
  refine ⟨exists_encode_iff, ?_, fun f => encode_eq_error_iff,
    fun p _ => Param.exists_refuses_iff, ?_⟩
  · intro frame h
    obtain ⟨hdata, hid, hname, -⟩ := encode_eq_ok_iff.1 h
    obtain ⟨fields, hfields, hbytes⟩ := encodeParams_eq_ok_iff_carries.1 hdata
    refine ⟨fields, hfields, ?_⟩
    rw [← hid, ← hname, ← hbytes]
  · intro p hp u hbound hends
    refine ⟨Param.value_ne_ok hbound hends, fun frame h => ?_⟩
    obtain ⟨t, n, -, v, htakes, -⟩ := (exists_encode_iff.1 ⟨frame, h⟩).1 p hp
    exact Param.value_ne_ok hbound hends p.default v (Param.value_eq_ok_iff.2 htakes)

-- the mode has a default, and is bound to a reference that leads to nothing
theorem encode_accepts_steering :
    let actuals : Store :=
      .ofList [("angle", ⟨"var", "base"⟩), ("base", ⟨"int", "300"⟩), ("trim", ⟨"int", "-1"⟩)]
    let dangling : Store := actuals.set "mode" ⟨"var", "gone"⟩
    let mode : Param := ⟨"mode", "byte", "", "int:7"⟩
    (∀ p ∈ steering.params, p.Accepted actuals) ∧ steering.declaredSize = 4 ∧
    steering.Refuses (some 4) dangling (.error (.dangling "mode" ⟨"var", "gone"⟩)) ∧
    (∀ default v, ({ mode with default } : Param).value dangling ≠ .ok v) ∧
    ∀ frame, steering.encode (some 4) dangling ≠ .ok frame := by
  intro actuals dangling mode
  have hframe : steering.encode (some 4) actuals =
      .ok ⟨.number 0x120, [1, 44, 255, 7], "Steer"⟩ := by decide +kernel
  obtain ⟨haccepts, -⟩ := encode_accepts steering (some 4) actuals
  obtain ⟨hparams, -⟩ := haccepts.1 ⟨_, hframe⟩
  obtain ⟨-, -, hrefuses, -, hfall⟩ := encode_accepts steering (some 4) dangling
  have hnone : Scopes.resolve [dangling] "mode" = .ok none := by decide +kernel
  have hends : ∀ k v, ¬ Scopes.EndsAfter [dangling] k "mode" (some v) := by
    intro k v h
    cases hnone.symm.trans (Scopes.resolve_eq_ok_iff.2 ⟨k, h⟩)
  refine ⟨hparams, by decide, (hrefuses _).1 (by decide +kernel), ?_⟩
  exact hfall mode (by decide) ⟨"var", "gone"⟩ (by decide +kernel) hends

end Instruction

end BusScript
