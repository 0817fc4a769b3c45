import BusScript.Proofs.Provenance
import BusScript.Proofs.Reference

/-!
# Compound assignments

A compound assignment `x += t` is short for `x = x + t` where `x` is a local
variable, and for `x := x + t` where it is a global one. The two are executed on
different ways. The short form looks for `x` among the local and then the global
variables, and evaluates what it finds there. The long form reads `x` as an
operand, by a reference that starts one step earlier. `compound_expands` says that
both ways come to the same, whatever `x` holds: a value, a reference, one that
leads nowhere or back to itself, or nothing at all.

The comparison has two halves:

* `setVar_compound`, `setVar_expansion` — what the two statements do, once their
  arguments are read off the statement;
* `eval_reference_eq_ok_iff` — a name has the value of what it is bound to. Paths
  of references decide this also for cycles, whose reports differ.
-/

namespace BusScript

/-! ### The arguments of an assignment -/

namespace Statement

/-- A text stands for itself as the name of a variable or an operator: it is written neither as
a reference, with `var:`, nor as a text, with `str:`. -/
def Plain (text : String) : Prop :=
  ¬ "var:".toList <+: text.toList ∧ ¬ "str:".toList <+: text.toList

instance (text : String) : Decidable (Plain text) :=
  inferInstanceAs (Decidable (¬ "var:".toList <+: text.toList ∧ ¬ "str:".toList <+: text.toList))

/-- A text that is `Plain` is kept as it is. -/
theorem nameValue_of_plain {text : String} (h : Plain text) : nameValue text = .ofText text := by
  have hvar : "var:".toList.isPrefixOf text.toList = false := by
    simpa [← List.isPrefixOf_iff_prefix] using h.1
  have hstr : "str:".toList.isPrefixOf text.toList = false := by
    simpa [← List.isPrefixOf_iff_prefix] using h.2
  simp only [nameValue, hvar, hstr, Bool.or_self, Bool.false_eq_true, if_false]

theorem plain_sign (op : Operator) : Plain op.sign := by
  cases op <;> decide

theorem plain_compoundSign (op : Operator) : Plain (op.sign ++ "=") := by
  cases op <;> decide

/-- What a store holds once `v` has been bound: an empty value is not kept. -/
def stored? (v : Tagged) : Option Tagged := if v.isEmpty then none else some v

@[simp] theorem stored?_ofText (text : String) : stored? (.ofText text) = some (.ofText text) := rfl

/-- The arguments of a `setVar` are those that it was built from; an operator that is left out
is none of them. -/
theorem get?_setVar (target assign operator note : String) (operand second : Tagged)
    (name : String) :
    (setVar target assign operand operator second note).args.get? name =
      if name = secondArg then stored? second
      else if name = operatorArg ∧ operator ≠ "" then stored? (nameValue operator)
      else if name = operandArg then stored? operand
      else if name = assignArg then stored? (nameValue assign)
      else if name = targetArg then stored? (nameValue target)
      else none := by
  simp only [setVar, Store.get?_set, stored?]
  by_cases hoperator : operator = ""
  · simp [hoperator, Store.get?_set]
  · simp [hoperator, Store.get?_set]

end Statement

namespace Memory

variable {m : Memory} {x sign operator note : String} {operand second : Tagged} {op : Operator}

theorem eval_ofText (text : String) : m.eval (.ofText text) = .ok (.ofText text) := rfl

/-- The value of an operand of an assignment, which is `missing` if it is left out. -/
def given (m : Memory) (arg : String) (v : Tagged) : Except BindingError Tagged :=
  if v.isEmpty then .error (.missing arg) else m.eval v

theorem target_setVar (hx : x ≠ "") (hplain : Statement.Plain x) :
    target (.setVar x sign operand operator second note) = .ok x := by
  have hget : (Statement.setVar x sign operand operator second note).args.get?
      Statement.targetArg = some (.ofText x) := by
    rw [Statement.get?_setVar, Statement.nameValue_of_plain hplain]
    simp [Statement.targetArg, Statement.assignArg, Statement.operandArg, Statement.operatorArg,
      Statement.secondArg]
  simp [target, hget, Tagged.ofText, hx]

theorem arg_assign (hsign : Statement.Plain sign) :
    m.arg (.setVar x sign operand operator second note) Statement.assignArg =
      .ok (.ofText sign) := by
  rw [arg, Statement.get?_setVar, Statement.nameValue_of_plain hsign]
  simp [Statement.assignArg, Statement.operandArg, Statement.operatorArg, Statement.secondArg,
    eval_ofText]

theorem arg_operand :
    m.arg (.setVar x sign operand operator second note) Statement.operandArg =
      m.given Statement.operandArg operand := by
  rw [arg, Statement.get?_setVar, given]
  cases hempty : operand.isEmpty <;> simp [Statement.stored?, hempty, Statement.operandArg,
    Statement.operatorArg, Statement.secondArg]

/-- Without an operator and a second operand, `rightSide` is the first operand. -/
theorem rightSide_single (first : Tagged) :
    m.rightSide (.setVar x sign operand "" ⟨"", ""⟩ note) first = .ok first := by
  simp [rightSide, Store.contains, Statement.get?_setVar, Statement.stored?, Tagged.isEmpty,
    Statement.targetArg, Statement.assignArg, Statement.operandArg, Statement.operatorArg,
    Statement.secondArg]

/-- With an operator, there has to be a second operand for `rightSide`. -/
theorem rightSide_operator (first : Tagged) :
    m.rightSide (.setVar x sign operand op.sign second note) first =
      if second.isEmpty then .error (.error .unpairedOperand)
      else match m.eval second with
        | .error e => .error (.error e)
        | .ok v => (op.apply first v).mapError (·.map .operator) := by
  have hoperator : (Statement.setVar x sign operand op.sign second note).args.get?
      Statement.operatorArg = some (.ofText op.sign) := by
    have hne : op.sign ≠ "" := by cases op <;> decide
    rw [Statement.get?_setVar, Statement.nameValue_of_plain (Statement.plain_sign op)]
    simp [hne, Statement.operatorArg, Statement.secondArg]
  have hsecond : (Statement.setVar x sign operand op.sign second note).args.get?
      Statement.secondArg = Statement.stored? second := by
    simp [Statement.get?_setVar]
  have happly : ∀ v, Operator.applySign (Tagged.ofText op.sign).payload first v =
      op.apply first v := by
    intro v
    cases op <;> rfl
  unfold rightSide
  simp only [Store.contains, arg, hoperator, hsecond, Statement.stored?]
  cases hempty : second.isEmpty
  · cases hv : m.eval second <;> simp [eval_ofText, happly, hv]
  · simp

/-- The sign of an operator and an equals sign are the sign of `update`. -/
theorem ofSign?_compound (op : Operator) :
    Assignment.ofSign? (op.sign ++ "=") = some (.update op) := by
  cases op <;> decide

/-- What `setVar` does for a compound assignment. -/
theorem setVar_compound (hx : x ≠ "") (hplain : Statement.Plain x) :
    m.setVar (.setVar x (op.sign ++ "=") operand "" ⟨"", ""⟩ note) =
      match m.given Statement.operandArg operand with
      | .error e => .error (.error e)
      | .ok v => m.compound x op v := by
  rw [setVar, target_setVar hx hplain]
  cases hv : m.given Statement.operandArg operand <;>
    simp [arg_assign (Statement.plain_compoundSign op), arg_operand, rightSide_single, assign,
      Tagged.ofText, ofSign?_compound, hv]

/-- What `setVar` does for its expansion, whichever way the result is assigned. -/
theorem setVar_expansion (hx : x ≠ "") (hplain : Statement.Plain x)
    (hsign : Statement.Plain sign) :
    m.setVar (.setVar x sign (.parse ("var:" ++ x)) op.sign operand note) =
      match m.eval (.reference x) with
      | .error e => .error (.error e)
      | .ok current =>
        if operand.isEmpty then .error (.error .unpairedOperand)
        else match m.eval operand with
          | .error e => .error (.error e)
          | .ok v =>
            match (op.apply current v).mapError (·.map BindingError.operator) with
            | .error f => .error f
            | .ok result => m.assign x sign result := by
  have hreference : m.given Statement.operandArg (.parse ("var:" ++ x)) =
      m.eval (.reference x) := by
    rw [Tagged.parse_eq_reference_iff.2 rfl]
    rfl
  rw [setVar, target_setVar hx hplain]
  simp only [arg_assign hsign, arg_operand, hreference, rightSide_operator, Tagged.ofText]
  cases m.eval (.reference x) with
  | error e => rfl
  | ok current =>
      cases operand.isEmpty with
      | true => rfl
      | false => cases m.eval operand <;> rfl

end Memory

/-! ### Reading a variable and reading what it holds -/

namespace Scopes

theorem eval_reference (scopes : Scopes) (name : String) :
    eval scopes (.reference name) = resolve scopes name := rfl

/-- A name has the value of what it is bound to. A `reference` to it is followed one step more,
and both are cyclic or neither. -/
theorem eval_reference_eq_ok_iff {scopes : Scopes} {name : String} {held : Tagged}
    {found : Option Tagged} (h : lookup? scopes name = some held) :
    eval scopes (.reference name) = .ok found ↔ eval scopes held = .ok found := by
  rw [eval_reference, eval]
  cases hvar : held.isVar with
  | false => simp [resolve_of_lookup? h hvar]
  | true =>
      have hnext := next?_of_isVar h hvar
      rw [if_pos rfl, resolve_eq_ok_iff, resolve_eq_ok_iff]
      constructor
      · intro hends
        obtain ⟨k, hends⟩ := hends
        cases k with
        | zero =>
            -- the path does not end at a name that is bound to a reference
            obtain ⟨last, hwalk, hlast, -⟩ := hends
            cases hwalk
            cases hnext.symm.trans hlast
        | succ k => exact ⟨k, (endsAfter_succ hnext).1 hends⟩
      · intro hends
        obtain ⟨k, hends⟩ := hends
        exact ⟨k + 1, (endsAfter_succ hnext).2 hends⟩

end Scopes

namespace Memory

variable {m : Memory} {x sign note note' : String} {operand : Tagged} {op : Operator}

/-- Two assignments come to the same: they leave the same `Memory`, both fail with a
`BindingError` of their own, or both end `unwritable`. -/
inductive SameEffect : Except (Failure BindingError) Memory →
    Except (Failure BindingError) Memory → Prop
  | assigned (m : Memory) : SameEffect (.ok m) (.ok m)
  | failed (e e' : BindingError) : SameEffect (.error (.error e)) (.error (.error e'))
  | overlong : SameEffect (.error .unwritable) (.error .unwritable)

/-- A variable that holds something is combined with the operand alike, whether it is read by
what it holds or by a `reference` to its name. -/
theorem sameEffect_combine {held v : Tagged} {bind : Tagged → Memory}
    (hheld : Scopes.lookup? m.scopes x = some held)
    (hbind : ∀ result, m.assign x sign result = .ok (bind result)) :
    SameEffect ((m.combine op held v).map bind)
      (match m.eval (.reference x) with
      | .error e => .error (.error e)
      | .ok current =>
        match (op.apply current v).mapError (·.map BindingError.operator) with
        | .error f => .error f
        | .ok result => m.assign x sign result) := by
  have hsame : ∀ u, m.eval (.reference x) = .ok u ↔ m.eval held = .ok u := by
    intro u
    rw [eval_eq_ok_iff, eval_eq_ok_iff, Scopes.eval_reference_eq_ok_iff hheld]
  unfold combine
  cases hcurrent : m.eval held with
  | error e =>
      cases hname : m.eval (.reference x) with
      | error e' => exact .failed e e'
      | ok u => cases hcurrent.symm.trans ((hsame u).1 hname)
  | ok current =>
      rw [(hsame current).2 hcurrent]
      dsimp only
      cases (op.apply current v).mapError (·.map BindingError.operator) with
      | ok result =>
          dsimp only
          rw [hbind]
          exact .assigned _
      | error f =>
          cases f with
          | error e => exact .failed e e
          | unwritable => exact .overlong

/-- The sign by which the expansion of a compound assignment assigns its result: `=` to a local
variable, and else `:=`. -/
def expansionSign (locals : Store) (name : String) : String :=
  if locals.contains name then "=" else ":="

theorem lookup?_of_locals {held : Tagged} (hargs : m.args.get? x = none)
    (h : m.locals.get? x = some held) : Scopes.lookup? m.scopes x = some held := by
  simp [Scopes.lookup?, scopes, hargs, h]

theorem lookup?_of_globals (hargs : m.args.get? x = none) (hlocals : m.locals.get? x = none) :
    Scopes.lookup? m.scopes x = m.globals.get? x := by
  simp [Scopes.lookup?, scopes, hargs, hlocals]

/-- A compound assignment and its expansion come to the same for `Memory.setVar`. -/
theorem sameEffect_expansion (op : Operator) (operand : Tagged) (note note' : String)
    (hx : x ≠ "") (hplain : Statement.Plain x) (hargs : m.args.get? x = none) :
    SameEffect (m.setVar (.setVar x (op.sign ++ "=") operand "" ⟨"", ""⟩ note))
      (m.setVar (.setVar x (expansionSign m.locals x) (.parse ("var:" ++ x)) op.sign operand
        note')) := by
  have hsign : Statement.Plain (expansionSign m.locals x) := by
    unfold expansionSign
    split <;> decide
  rw [setVar_compound hx hplain, setVar_expansion hx hplain hsign, given]
  cases hempty : operand.isEmpty with
  | true =>
      -- an operand that is left out is missing here and unpaired there
      cases m.eval (.reference x) <;> exact .failed _ _
  | false =>
      simp only [Bool.false_eq_true, if_false]
      cases m.eval operand with
      | error e => cases m.eval (.reference x) <;> exact .failed _ _
      | ok v =>
          simp only [compound]
          cases hlocals : m.locals.get? x with
          | some held =>
              have hequals : expansionSign m.locals x = "=" := by
                simp [expansionSign, Store.contains, hlocals]
              rw [hequals]
              exact sameEffect_combine (lookup?_of_locals hargs hlocals) fun _ => rfl
          | none =>
              have hequals : expansionSign m.locals x = ":=" := by
                simp [expansionSign, Store.contains, hlocals]
              have hlookup := lookup?_of_globals hargs hlocals
              rw [hequals]
              cases hglobals : m.globals.get? x with
              | some held =>
                  rw [hglobals] at hlookup
                  exact sameEffect_combine hlookup fun _ => rfl
              | none =>
                  rw [hglobals] at hlookup
                  have hnone : m.eval (.reference x) = .error (.undefined x) := by
                    rw [eval, Scopes.eval_reference, Scopes.resolve_of_lookup?_eq_none hlookup]
                    rfl
                  rw [hnone]
                  exact .failed _ _

end Memory

/-! ### Executing the two statements -/

/-- Two statements come to the same when they are executed in the state of `a` and `w`: both
assign the same variables, both are skipped with a message and leave everything as it was, or
both end the call as `unwritable`. -/
inductive Turn.SameEffect (a : Activation) (w : World) : Turn → Turn → Prop
  | assigned (locals globals : Store) :
      SameEffect a w (.next { a with locals }.advance { w with globals })
        (.next { a with locals }.advance { w with globals })
  | skipped (text text' : String) :
      SameEffect a w (.next a.advance (w.log .error text)) (.next a.advance (w.log .error text'))
  | overlong : SameEffect a w (.stop .unwritable w) (.stop .unwritable w)

namespace Memory.SameEffect

variable {r r' : Except (Failure BindingError) Memory}

theorem eq_ok_iff (h : SameEffect r r') (m : Memory) : r = .ok m ↔ r' = .ok m := by
  cases h <;> simp

theorem fails_iff (h : SameEffect r r') :
    (∃ e, r = .error (.error e)) ↔ ∃ e, r' = .error (.error e) := by
  cases h <;> simp

/-- Assignments that come to the same are committed to turns that do. -/
theorem commit (h : SameEffect r r') (a : Activation) (w : World) (form : Form) :
    Turn.SameEffect a w (a.commit form w r) (a.commit form w r') := by
  cases h with
  | assigned m => exact .assigned m.locals m.globals
  | failed e e' => exact .skipped _ _
  | overlong => exact .overlong

end Memory.SameEffect

/-- **A compound assignment is its expansion.** In every state of a call, for every
variable whose name no argument has, `x op= t` and `x = x op t` assign the same
variables, if `x` is a local variable, and else `x op= t` and `x := x op t` do. One
of the two fails with a binding error exactly if the other does, and then neither
changes anything but the log. -/
theorem Engine.compound_expands (E : Engine)
    (call : String → Store → World → Option Outcome) (a : Activation) (w : World) (x : String)
    (op : Operator) (operand : Tagged) (note note' : String) (hx : x ≠ "")
    (hplain : Statement.Plain x) (hargs : a.args.get? x = none) :
    let m := a.memory w
    let sign := if a.locals.contains x then "=" else ":="
    let s := Statement.setVar x (op.sign ++ "=") operand "" ⟨"", ""⟩ note
    let s' := Statement.setVar x sign (.parse ("var:" ++ x)) op.sign operand note'
    (∀ m', m.setVar s = .ok m' ↔ m.setVar s' = .ok m') ∧
    ((∃ e, m.setVar s = .error (.error e)) ↔ ∃ e, m.setVar s' = .error (.error e)) ∧
    ∃ t t', E.step call a s w = some t ∧ E.step call a s' w = some t' ∧
      Turn.SameEffect a w t t' := by
  intro m sign s s'
  have hsame : Memory.SameEffect (m.setVar s) (m.setVar s') :=
    Memory.sameEffect_expansion op operand note note' hx hplain hargs
  have hs : E.step call a s w = some (a.commit .setVar w (m.setVar s)) := rfl
  have hs' : E.step call a s' w = some (a.commit .setVar w (m.setVar s')) := rfl
  exact ⟨hsame.eq_ok_iff, hsame.fails_iff, _, _, hs, hs', hsame.commit a w .setVar⟩

/-- A call whose local variable `x` is a reference to another one, and whose `u` and
`v` refer to one another. -/
def Activation.tangled : Activation :=
  { Activation.start (.make "f" [] [] "") {} with
    locals := .ofList [("x", ⟨"var", "y"⟩), ("y", ⟨"int", "5"⟩), ("u", ⟨"var", "v"⟩),
      ("v", ⟨"var", "u"⟩)] }

/-- Four assignments in `Activation.tangled`: a difference that replaces the reference, one of a
global variable, one with a cycle and one with nothing to subtract from. -/
theorem Engine.compound_expands_tangled :
    let m := Activation.tangled.memory ⟨.ofList [("g", ⟨"int", "7"⟩)], #[]⟩
    let short := fun x => Statement.setVar x "-=" ⟨"int", "2"⟩ "" ⟨"", ""⟩ ""
    let long := fun x sign => Statement.setVar x sign (.parse ("var:" ++ x)) "-" ⟨"int", "2"⟩ ""
    (∃ m', m.setVar (short "x") = .ok m' ∧ m.setVar (long "x" "=") = .ok m' ∧
      m'.locals.get? "x" = some ⟨"int", "3"⟩) ∧
    (∃ m', m.setVar (short "g") = .ok m' ∧ m.setVar (long "g" ":=") = .ok m' ∧
      m'.globals.get? "g" = some ⟨"int", "5"⟩) ∧
    (∃ e, m.setVar (long "u" "=") = .error (.error e)) ∧
    ∃ e, m.setVar (long "nothing" ":=") = .error (.error e) := by
  intro m short long
  have hexpands := fun x => compound_expands {} (fun _ _ _ => none) Activation.tangled
    ⟨.ofList [("g", ⟨"int", "7"⟩)], #[]⟩ x .sub ⟨"int", "2"⟩ "" ""
  obtain ⟨hx, -⟩ := hexpands "x" (by decide) (by decide) (by decide)
  obtain ⟨hg, -⟩ := hexpands "g" (by decide) (by decide) (by decide)
  obtain ⟨-, hu, -⟩ := hexpands "u" (by decide) (by decide) (by decide)
  obtain ⟨-, hn, -⟩ := hexpands "nothing" (by decide) (by decide) (by decide)
  -- the short forms are executed, and the long ones follow
  have hassigned : ∀ {r : Except (Failure BindingError) Memory} {g : Memory → Option Tagged}
      {v : Tagged}, r.map g = .ok (some v) → ∃ m', r = .ok m' ∧ g m' = some v := by
    intro r g v h
    cases r with
    | error f => cases h
    | ok m' => exact ⟨m', rfl, Except.ok.inj h⟩
  have hfailed : ∀ {r : Except (Failure BindingError) Memory} {e : BindingError},
      r.map (·.locals) = .error (.error e) → ∃ e, r = .error (.error e) := by
    intro r e h
    cases r with
    | error f => exact ⟨e, congrArg Except.error (Except.error.inj h)⟩
    | ok m' => cases h
  obtain ⟨m₁, hm₁, hv₁⟩ := hassigned (r := m.setVar (short "x")) (g := (·.locals.get? "x"))
    (v := ⟨"int", "3"⟩) (by decide +kernel)
  obtain ⟨m₂, hm₂, hv₂⟩ := hassigned (r := m.setVar (short "g")) (g := (·.globals.get? "g"))
    (v := ⟨"int", "5"⟩) (by decide +kernel)
  refine ⟨⟨m₁, hm₁, (hx m₁).1 hm₁, hv₁⟩, ⟨m₂, hm₂, (hg m₂).1 hm₂, hv₂⟩, hu.1 ?_, hn.1 ?_⟩
  · exact hfailed (e := .cyclic ⟨["v", "u", "v"]⟩) (by decide +kernel)
  · exact hfailed (e := .undefined "nothing") (by decide +kernel)

end BusScript
