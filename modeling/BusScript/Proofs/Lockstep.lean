import BusScript.Proofs.Turn

/-!
# Two runs in lockstep

A run reads its stores by name only, and never looks back at the trace that it
leaves. Two runs of one program whose stores can not be told apart by name, and
whose worlds have any traces behind them, therefore go **in lockstep**: they take
the same turns, record the same events and end alike (`run_lockstep`). The
engines may differ in what they show.

What it means that stores can not be told apart is left open. A relation
between stores is `Congruent` if related stores have the same look-ups and stay
related under the changes that a run makes; equality is such a relation, and so
is having the same look-ups.
-/

namespace BusScript

/-- A relation between stores that `get?` can not tell apart, and that bindings and removals
keep. -/
structure Store.Congruent (R : Store → Store → Prop) : Prop where
  refl : ∀ s, R s s
  get?_eq : ∀ {s t : Store}, R s t → ∀ x, s.get? x = t.get? x
  set : ∀ {s t : Store}, R s t → ∀ name v, R (s.set name v) (t.set name v)
  erase : ∀ {s t : Store}, R s t → ∀ name, R (s.erase name) (t.erase name)

/-- Two results of one computation: the same failure, or values related by `P`. -/
inductive Paired {ε α : Type} (P : α → α → Prop) : Except ε α → Except ε α → Prop
  | error (e : ε) : Paired P (.error e) (.error e)
  | ok {x y : α} (h : P x y) : Paired P (.ok x) (.ok y)

section

variable {α β : Type} {P : α → α → Prop} {x y : Option α}

theorem rel_mono {Q : α → α → Prop} (h : Option.Rel P x y) (hPQ : ∀ a b, P a b → Q a b) :
    Option.Rel Q x y := by
  cases h with
  | none => exact .none
  | some hab => exact .some (hPQ _ _ hab)

theorem eq_of_rel (h : Option.Rel P x y) (hP : ∀ a b, P a b → a = b) : x = y := by
  cases h with
  | none => rfl
  | some hab => rw [hP _ _ hab]

/-- Related computations stay related when they go on alike: `Option.Rel` passes through `bind`.
-/
theorem rel_bind {Q : β → β → Prop} {f g : α → Option β} (h : Option.Rel P x y)
    (hfg : ∀ a b, P a b → Option.Rel Q (f a) (g b)) : Option.Rel Q (x.bind f) (y.bind g) := by
  cases h with
  | none => exact .none
  | some hab => exact hfg _ _ hab

end

/-! ### Look-ups -/

namespace Scopes

variable {scopes scopes' : Scopes}

/-- References are followed by look-ups alone, so scopes with the same `lookup?` have the same
`follow`. -/
theorem follow_congr (h : ∀ x, lookup? scopes x = lookup? scopes' x) (passed : List String)
    (name : String) (fresh : name ∉ passed) :
    follow scopes passed name fresh = follow scopes' passed name fresh := by
  fun_induction follow scopes passed name fresh with
  | case1 passed name fresh hnone =>
      rw [h] at hnone
      rw [follow_of_lookup?_eq_none hnone]
  | case2 passed name fresh v hv hvar hagain =>
      rw [h] at hv
      rw [follow_of_lookup? hv, if_pos hvar, dif_pos hagain]
  | case3 passed name fresh v hv hvar hagain hlt ih =>
      rw [h] at hv
      rw [follow_of_lookup? hv, if_pos hvar, dif_neg hagain, ih]
  | case4 passed name fresh v hv hvar =>
      rw [h] at hv
      rw [follow_of_lookup? hv, if_neg hvar]

theorem resolve_congr (h : ∀ x, lookup? scopes x = lookup? scopes' x) (name : String) :
    resolve scopes name = resolve scopes' name :=
  follow_congr h [] name _

/-- Scopes with the same `lookup?` give every expression the same value. -/
theorem eval_congr (h : ∀ x, lookup? scopes x = lookup? scopes' x) (v : Tagged) :
    eval scopes v = eval scopes' v := by
  rw [eval, eval, resolve_congr h]

end Scopes

/-! ### Variables -/

/-- Scopes that can not be told apart: each of the three is related to its counterpart by `R`.
-/
structure Memory.Alike (R : Store → Store → Prop) (m m' : Memory) : Prop where
  args : R m.args m'.args
  locals : R m.locals m'.locals
  globals : R m.globals m'.globals

namespace Memory

variable {R : Store → Store → Prop} (hR : Store.Congruent R) {m m' : Memory} (h : m.Alike R m')
include hR h

/-- Scopes that are `Alike` evaluate every expression to the same result. -/
theorem scopes_congr (v : Tagged) : Scopes.eval m.scopes v = Scopes.eval m'.scopes v := by
  refine Scopes.eval_congr (fun x => ?_) v
  simp only [Scopes.lookup?, scopes, List.findSome?_cons, hR.get?_eq h.args,
    hR.get?_eq h.locals, hR.get?_eq h.globals]

theorem eval_congr (v : Tagged) : m.eval v = m'.eval v := by
  rw [eval, eval, scopes_congr hR h]

theorem arg_congr (s : Statement) (name : String) : m.arg s name = m'.arg s name := by
  unfold arg
  cases s.args.get? name with
  | none => rfl
  | some v => exact eval_congr hR h v

/-- The values of bindings are the same in scopes that are `Alike`. -/
theorem evalAll_congr (bs : List (String × Tagged)) : m.evalAll bs = m'.evalAll bs := by
  induction bs with
  | nil => rfl
  | cons b bs ih =>
      obtain ⟨name, v⟩ := b
      rw [evalAll, evalAll, eval_congr hR h, ih]

/-- The arguments of a call are the same store, not only `Alike`: their order is that of the
statement. -/
theorem actuals_congr (s : Statement) : m.actuals s = m'.actuals s := by
  rw [actuals, actuals, evalAll_congr hR h]

/-- A compound assignment computes the same value in scopes that are `Alike`. -/
theorem combine_congr (op : Operator) (held v : Tagged) :
    m.combine op held v = m'.combine op held v := by
  rw [combine, combine, eval_congr hR h]

/-- The right side of an assignment has the same value, or fails alike. -/
theorem rightSide_congr (s : Statement) (first : Tagged) :
    m.rightSide s first = m'.rightSide s first := by
  simp only [rightSide, arg_congr hR h]

theorem alike_setLocal (name : String) (v : Tagged) :
    (m.setLocal name v).Alike R (m'.setLocal name v) :=
  ⟨h.args, hR.set h.locals name v, h.globals⟩

theorem alike_setGlobal (name : String) (v : Tagged) :
    (m.setGlobal name v).Alike R (m'.setGlobal name v) :=
  ⟨h.args, h.locals, hR.set h.globals name v⟩

/-- A compound assignment fails alike, or leaves scopes that are `Alike`. -/
theorem compound_paired (name : String) (op : Operator) (v : Tagged) :
    Paired (Alike R) (m.compound name op v) (m'.compound name op v) := by
  unfold compound
  rw [hR.get?_eq h.locals]
  cases m'.locals.get? name with
  | some held =>
      dsimp only
      rw [combine_congr hR h]
      cases m'.combine op held v with
      | error f => exact .error f
      | ok v' => exact .ok (alike_setLocal hR h name v')
  | none =>
      rw [hR.get?_eq h.globals]
      cases m'.globals.get? name with
      | none => exact .error _
      | some held =>
          dsimp only
          rw [combine_congr hR h]
          cases m'.combine op held v with
          | error f => exact .error f
          | ok v' => exact .ok (alike_setGlobal hR h name v')

/-- An assignment fails alike, or leaves scopes that are `Alike`, whatever its sign. -/
theorem assign_paired (name sign : String) (v : Tagged) :
    Paired (Alike R) (m.assign name sign v) (m'.assign name sign v) := by
  unfold assign
  cases Assignment.ofSign? sign with
  | none => exact .error _
  | some assignment =>
      cases assignment with
      | toGlobal => exact .ok (alike_setGlobal hR h name v)
      | toLocal => exact .ok (alike_setLocal hR h name v)
      | update op => exact compound_paired hR h name op v

/-- The same of a whole `Form.setVar` statement, whose arguments are read by look-ups. -/
theorem setVar_paired (s : Statement) : Paired (Alike R) (m.setVar s) (m'.setVar s) := by
  unfold setVar
  cases target s with
  | error e => exact .error _
  | ok name =>
      simp only [arg_congr hR h, rightSide_congr hR h]
      -- all that is read is the same, so only the assignment is left
      cases m'.arg s Statement.assignArg with
      | error e => exact .error _
      | ok sign =>
          cases m'.arg s Statement.operandArg with
          | error e => exact .error _
          | ok first =>
              dsimp only
              cases m'.rightSide s first with
              | error f => exact .error f
              | ok v => exact assign_paired hR h name sign.payload v

theorem setLocalStatement_paired (s : Statement) :
    Paired (Alike R) (m.setLocalStatement s) (m'.setLocalStatement s) := by
  unfold setLocalStatement
  cases parseBinding s.content with
  | error e => exact .error _
  | ok b => exact .ok (alike_setLocal hR h b.1 b.2)

theorem setGlobalStatement_paired (s : Statement) :
    Paired (Alike R) (m.setGlobalStatement s) (m'.setGlobalStatement s) := by
  unfold setGlobalStatement
  cases parseBinding s.content with
  | error e => exact .error _
  | ok b => exact .ok (alike_setGlobal hR h b.1 b.2)

end Memory

/-! ### Instructions -/

section Encode

variable {actuals actuals' : Store} (h : ∀ x, actuals.get? x = actuals'.get? x)
include h

theorem Param.value_congr (p : Param) : p.value actuals = p.value actuals' := by
  have hlookup : ∀ x, Scopes.lookup? [actuals] x = Scopes.lookup? [actuals'] x := by
    intro x
    simp only [Scopes.lookup?, List.findSome?_cons, h]
  rw [value, value, h, Scopes.resolve_congr hlookup]

/-- Arguments with the same look-ups have the same bytes, or fail at the same place. -/
theorem encodeParams_congr (instruction : String) (ps : List Param) :
    encodeParams instruction actuals ps = encodeParams instruction actuals' ps := by
  induction ps with
  | nil => rfl
  | cons p ps ih =>
      have hp : p.encode instruction actuals = p.encode instruction actuals' := by
        rw [Param.encode, Param.encode, p.value_congr h]
      rw [encodeParams, encodeParams, hp, ih]

/-- An instruction is encoded by look-ups among its arguments alone: stores with the same `get?`
give the same frame. -/
theorem Instruction.encode_congr (i : Instruction) (frameSize : Option Int) :
    i.encode frameSize actuals = i.encode frameSize actuals' := by
  rw [encode, encode, encodeParams_congr h]

end Encode

/-! ### States of a run -/

/-- States of a call that differ in stores only, and those can not be told apart by `R`. -/
inductive Activation.Alike (R : Store → Store → Prop) (a : Activation) : Activation → Prop
  | intro {args locals : Store} (hargs : R a.args args) (hlocals : R a.locals locals) :
      Alike R a { a with args, locals }

/-- Since the worlds `since` and `since'`, the same events were recorded, and the global
variables can not be told apart. -/
structure World.Alike (R : Store → Store → Prop) (since since' w w' : World) : Prop where
  globals : R w.globals w'.globals
  events : ∃ events, w.trace.toList = since.trace.toList ++ events ∧
    w'.trace.toList = since'.trace.toList ++ events

/-- Two turns that lead to states that are alike, or to the same failure. -/
inductive Turn.Alike (R : Store → Store → Prop) (since since' : World) : Turn → Turn → Prop
  | next {a a' : Activation} {w w' : World} (ha : a.Alike R a')
      (hw : World.Alike R since since' w w') :
      Alike R since since' (.next a w) (.next a' w')
  | stop (f : Failure Fault) {w w' : World} (hw : World.Alike R since since' w w') :
      Alike R since since' (.stop f w) (.stop f w')

/-- Two calls that have ended with the same `result`, in worlds that are alike. -/
structure Outcome.Alike (R : Store → Store → Prop) (since since' : World) (o o' : Outcome) :
    Prop where
  result : o.result = o'.result
  world : World.Alike R since since' o.world o'.world

namespace World.Alike

variable {R : Store → Store → Prop} {since since' w w' : World}

theorem start (h : R w.globals w'.globals) : World.Alike R w w' w w' where
  globals := h
  events := ⟨[], by simp, by simp⟩

/-- Recording the same event in both worlds keeps them `World.Alike`. -/
theorem record (h : World.Alike R since since' w w') (e : Event) :
    World.Alike R since since' (w.record e) (w'.record e) where
  globals := h.globals
  events := by
    obtain ⟨events, hw, hw'⟩ := h.events
    exact ⟨events ++ [e], by simp [World.record, hw], by simp [World.record, hw']⟩

theorem log (h : World.Alike R since since' w w') (severity : Severity) (text : String) :
    World.Alike R since since' (w.log severity text) (w'.log severity text) :=
  h.record _

/-- Worlds in which the same has happened have the same `trace`, if they had it before. -/
theorem trace_eq (h : World.Alike R since since' w w') (hsince : since.trace = since'.trace) :
    w.trace = w'.trace := by
  obtain ⟨events, hw, hw'⟩ := h.events
  rw [← Array.toList_inj, hw, hw', hsince]

/-- Related global variables may be put into worlds that are alike. -/
theorem bind {globals globals' : Store} (h : World.Alike R since since' w w')
    (hglobals : R globals globals') :
    World.Alike R since since' { w with globals } { w' with globals := globals' } :=
  ⟨hglobals, h.events⟩

variable (hR : Store.Congruent R)
include hR

/-- Both worlds may forget what the last call has returned. -/
theorem forgetReturn (h : World.Alike R since since' w w') :
    World.Alike R since since' w.forgetReturn w'.forgetReturn :=
  h.bind (hR.erase h.globals returnName)

/-- Both worlds may keep the same value as what a call returns. -/
theorem keepReturn (h : World.Alike R since since' w w') (v : Tagged) :
    World.Alike R since since' (w.keepReturn v) (w'.keepReturn v) :=
  h.bind (hR.set h.globals returnName v)

end World.Alike

/-! ### Statements -/

section Statements

variable {R : Store → Store → Prop} (hR : Store.Congruent R) {since since' w w' : World}
  {a a' : Activation}

/-- States that are alike, in worlds that are, give scopes that are. -/
theorem Activation.Alike.memory (ha : a.Alike R a') (hw : World.Alike R since since' w w') :
    (a.memory w).Alike R (a'.memory w') := by
  cases ha with
  | intro hargs hlocals => exact ⟨hargs, hlocals, hw.globals⟩

theorem Activation.Alike.goto (ha : a.Alike R a') (pos : Nat) :
    (a.goto pos).Alike R (a'.goto pos) := by
  cases ha with
  | intro hargs hlocals => exact .intro hargs hlocals

theorem Activation.Alike.advance (ha : a.Alike R a') : a.advance.Alike R a'.advance := by
  cases ha with
  | intro hargs hlocals => exact .intro hargs hlocals

theorem Activation.Alike.leave (ha : a.Alike R a') : a.leave.Alike R a'.leave := by
  cases ha with
  | intro hargs hlocals => exact .intro hargs hlocals

/-- Passes of loops do not look at stores at all. -/
theorem Activation.Alike.pass (ha : a.Alike R a') (index : LoopIndex) (c : Counter) :
    (a.pass index c).Alike R (a'.pass index c) := by
  cases ha with
  | intro hargs hlocals =>
      unfold Activation.pass
      dsimp only
      split <;> exact .intro hargs hlocals

theorem Activation.Alike.describe (ha : a.Alike R a') (form : Form) (text : String) :
    a.describe form text = a'.describe form text := by
  cases ha with
  | intro hargs hlocals => rfl

theorem alike_skip (ha : a.Alike R a') (hw : World.Alike R since since' w w') (form : Form)
    (e : BindingError) : Turn.Alike R since since' (a.skip form e w) (a'.skip form e w') := by
  rw [Activation.skip, Activation.skip, ha.describe]
  exact .next ha.advance (hw.log _ _)

/-- States that are alike have the same loop index, since they are of one function. -/
theorem alike_withIndex (ha : a.Alike R a') (hw : World.Alike R since since' w w')
    {go go' : LoopIndex → Turn} (hgo : ∀ index, Turn.Alike R since since' (go index) (go' index)) :
    Turn.Alike R since since' (a.withIndex w go) (a'.withIndex w' go') := by
  cases ha with
  | intro hargs hlocals =>
      unfold Activation.withIndex
      cases a.function.loopIndex with
      | ok index => exact hgo index
      | error e => exact .stop _ (hw.log _ _)

/-- Results of an assignment that are `Paired` are taken over alike. -/
theorem alike_commit (ha : a.Alike R a') (hw : World.Alike R since since' w w') (form : Form)
    {m? m?' : Except (Failure BindingError) Memory} (hm : Paired (Memory.Alike R) m? m?') :
    Turn.Alike R since since' (a.commit form w m?) (a'.commit form w' m?') := by
  cases hm with
  | error f =>
      cases f with
      | error e => exact alike_skip ha hw form e
      | unwritable => exact .stop _ hw
  | ok hm =>
      cases ha with
      | intro hargs hlocals => exact .next (.intro hargs hm.locals) (hw.bind hm.globals)

include hR

/-- A loop reads its count by a look-up, so it takes the same turn in both states. -/
theorem alike_loop (ha : a.Alike R a') (hw : World.Alike R since since' w w') (s : Statement)
    (index : LoopIndex) :
    Turn.Alike R since since' (a.loop s w index) (a'.loop s w' index) := by
  have hcount : Activation.loopCount (a.memory w) s = Activation.loopCount (a'.memory w') s := by
    rw [Activation.loopCount, Activation.loopCount, Memory.arg_congr hR (ha.memory hw)]
  unfold Activation.loop
  rw [hcount]
  cases ha with
  | intro hargs hlocals =>
      have ha : a.Alike R { a with args := _, locals := _ } := .intro hargs hlocals
      dsimp only
      cases a.loops.lookup a.pos with
      | some c => exact .next (ha.pass index c) hw
      | none =>
          dsimp only
          cases Activation.loopCount _ s with
          | error e => exact .next (ha.goto _) (hw.log _ _)
          | ok n =>
              dsimp only
              split
              · exact .next (ha.pass index ⟨0, n⟩) hw
              · exact .stop _ hw

/-- A value is returned, or an error logged, alike in both states. -/
theorem alike_ret (ha : a.Alike R a') (hw : World.Alike R since since' w w') (s : Statement) :
    Turn.Alike R since since' (a.ret s w) (a'.ret s w') := by
  unfold Activation.ret
  rw [Memory.scopes_congr hR (ha.memory hw)]
  cases Scopes.eval (a'.memory w').scopes (.parse s.content) with
  | error cycle =>
      dsimp only
      rw [ha.describe]
      exact .next ha.leave (hw.log _ _)
  | ok v? =>
      cases v? with
      | none =>
          dsimp only
          rw [ha.describe]
          exact .next ha.leave (hw.log _ _)
      | some v =>
          dsimp only
          split
          · exact .next ha.leave hw
          · cases ha with
            | intro hargs hlocals => exact .next (.intro hargs hlocals) (hw.keepReturn hR v)

end Statements

/-! ### Calls and runs -/

namespace Engine

/-- The engine that shows more, or less, of what it does: `E` with another `verbose`. -/
def showing (E : Engine) (verbose : Bool) : Engine := { E with verbose }

variable {R : Store → Store → Prop} {E : Engine} {verbose : Bool} {since since' w w' : World}

/-- To the encoder, arguments with the same `get?` are the same, so the same frame is sent or
the same fault logged. -/
theorem send_lockstep (E : Engine) (verbose : Bool) (name : String) {args args' : Store}
    (h : ∀ x, args.get? x = args'.get? x) (hw : World.Alike R since since' w w') :
    (E.send name args w).1 = ((E.showing verbose).send name args' w').1 ∧
      World.Alike R since since' (E.send name args w).2
        ((E.showing verbose).send name args' w').2 := by
  have hfind : (E.showing verbose).findInstruction? name = E.findInstruction? name := rfl
  have hsize : (E.showing verbose).frameSize = E.frameSize := rfl
  unfold send
  rw [hfind, hsize]
  cases E.findInstruction? name with
  | none => exact ⟨rfl, hw.log _ _⟩
  | some i =>
      dsimp only
      rw [i.encode_congr h]
      cases i.encode E.frameSize args' with
      | error f =>
          cases f with
          | error e => exact ⟨rfl, hw.log _ _⟩
          | unwritable => exact ⟨rfl, hw⟩
      | ok frame =>
          dsimp only
          cases frame.render? with
          | none => exact ⟨rfl, hw⟩
          | some text => exact ⟨rfl, (hw.log _ _).record _⟩

/-- What follows a call is decided by its result and by `stopOnError`, which both engines share.
-/
theorem resume_lockstep {α : Type} {a a' : Activation} (ha : a.Alike R a')
    (hw : World.Alike R since since' w w') (r : Except (Failure Fault) α) :
    Turn.Alike R since since' (E.resume a r w) ((E.showing verbose).resume a' r w') := by
  have htolerates : (E.showing verbose).tolerates = E.tolerates := rfl
  unfold resume
  rw [htolerates]
  cases r with
  | ok v => exact .next ha.advance hw
  | error f =>
      dsimp only
      split
      · exact .next ha.advance hw
      · exact .stop f hw

/-- Whether a function is entered, and which one, is the same in both runs. -/
theorem entry_lockstep (E : Engine) (verbose : Bool) (depth : Int) (name : String)
    (hw : World.Alike R since since' w w') :
    (∃ f, E.entry depth name w = .ok f ∧ (E.showing verbose).entry depth name w' = .ok f) ∨
    ∃ o o', E.entry depth name w = .error o ∧
      (E.showing verbose).entry depth name w' = .error o' ∧ o.Alike R since since' o' := by
  have hfind : (E.showing verbose).findFunction? name = E.findFunction? name := rfl
  have hlimit : (E.showing verbose).exceeded? depth = E.exceeded? depth := rfl
  unfold entry
  rw [hfind, hlimit]
  cases E.findFunction? name with
  | none => exact .inr ⟨_, _, rfl, rfl, rfl, hw.log _ _⟩
  | some f =>
      cases E.exceeded? depth with
      | none => exact .inl ⟨f, rfl, rfl⟩
      | some limit =>
          dsimp only
          cases Failure.showing [depth, limit] (Fault.depth depth limit name) with
          | error fault => exact .inr ⟨_, _, rfl, rfl, rfl, hw.log _ _⟩
          | unwritable => exact .inr ⟨_, _, rfl, rfl, rfl, hw⟩

variable (hR : Store.Congruent R)
include hR

/-- Calls go in lockstep if the runs of the functions do. -/
theorem call_lockstep {fuel : Nat} {depth : Int}
    (hrun : ∀ {a a' : Activation} {w w' : World}, a.Alike R a' → World.Alike R since since' w w' →
      Option.Rel (Outcome.Alike R since since') (E.run fuel depth a w)
        ((E.showing verbose).run fuel depth a' w'))
    {args args' : Store} (hargs : R args args') (hw : World.Alike R since since' w w')
    (name : String) :
    Option.Rel (Outcome.Alike R since since') (E.call fuel depth name args w)
      ((E.showing verbose).call fuel depth name args' w') := by
  rw [call_eq, call_eq]
  rcases E.entry_lockstep verbose depth name hw with
    ⟨f, hentry, hentry'⟩ | ⟨o, o', hentry, hentry', ho⟩
  · rw [hentry, hentry']
    have ha : (Activation.start f args).Alike R (.start f args') := .intro hargs hargs
    exact hrun ha ((hw.record (.enter name)).forgetReturn hR)
  · rw [hentry, hentry']
    exact .some ho

/-- One step goes in lockstep, if the calls that it makes do. The cases are those of
`Engine.step`. -/
theorem step_lockstep {call call' : String → Store → World → Option Outcome}
    (hcall : ∀ (name : String) (args : Store) {w w' : World}, World.Alike R since since' w w' →
      Option.Rel (Outcome.Alike R since since') (call name args w) (call' name args w'))
    {a a' : Activation} (ha : a.Alike R a') (hw : World.Alike R since since' w w')
    (s : Statement) :
    Option.Rel (Turn.Alike R since since') (E.step call a s w)
      ((E.showing verbose).step call' a' s w') := by
  have hm := ha.memory hw
  unfold step
  dsimp only
  rw [Memory.actuals_congr hR hm]
  cases s.form with
  | callInstruction =>
      dsimp only
      cases (a'.memory w').actuals s with
      | error e => exact .some (alike_skip ha hw _ e)
      | ok actuals =>
          obtain ⟨hresult, hworld⟩ :=
            E.send_lockstep verbose s.content (fun x => rfl : ∀ x, actuals.get? x = _) hw
          dsimp only
          rw [hresult]
          exact .some (resume_lockstep ha hworld _)
  | callFunction =>
      dsimp only
      cases (a'.memory w').actuals s with
      | error e => exact .some (alike_skip ha hw _ e)
      | ok actuals =>
          simp only [Option.map_eq_bind]
          refine rel_bind (hcall s.content actuals hw) fun o o' ho => ?_
          dsimp only [Function.comp_apply]
          rw [ho.result]
          exact .some (resume_lockstep ha ho.world _)
  | loop => exact .some (alike_withIndex ha hw (alike_loop hR ha hw s))
  | endLoop =>
      refine .some (alike_withIndex ha hw fun index => ?_)
      cases ha with
      | intro hargs hlocals => exact .next (.intro hargs hlocals) hw
  | ret => exact .some (alike_ret hR ha hw s)
  | setVar => exact .some (alike_commit ha hw _ (Memory.setVar_paired hR hm s))
  | setLocal => exact .some (alike_commit ha hw _ (Memory.setLocalStatement_paired hR hm s))
  | setGlobal => exact .some (alike_commit ha hw _ (Memory.setGlobalStatement_paired hR hm s))

/-- Runs from states that can not be told apart go in lockstep: by induction on the fuel, from
`step_lockstep`. -/
theorem run_lockstep {fuel : Nat} {depth : Int} {a a' : Activation} (ha : a.Alike R a')
    (hw : World.Alike R since since' w w') :
    Option.Rel (Outcome.Alike R since since') (E.run fuel depth a w)
      ((E.showing verbose).run fuel depth a' w') := by
  induction fuel generalizing depth a a' w w' with
  | zero => exact .none
  | succ fuel ih =>
      have hcurrent : a'.current? = a.current? := by
        cases ha with
        | intro hargs hlocals => rfl
      cases hs : a.current? with
      | none =>
          rw [run_of_over hs, run_of_over (hcurrent.trans hs)]
          refine .some ?_
          cases ha with
          | intro hargs hlocals =>
              unfold Activation.finish
              cases a.result with
              | some v => exact ⟨rfl, hw⟩
              | none => exact ⟨rfl, hw.forgetReturn hR⟩
      | some s =>
          rw [run_of_current? hs, run_of_current? (hcurrent.trans hs)]
          -- a nested call gets the same arguments in both runs
          refine rel_bind (step_lockstep hR ?_ ha hw s) fun t t' ht => ?_
          · intro name args w w' hw
            exact call_lockstep hR ih (hR.refl args) hw name
          · cases ht with
            | next ha hw => exact ih ha hw
            | stop f hw => exact .some ⟨rfl, hw⟩

end Engine

end BusScript
