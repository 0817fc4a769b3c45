import BusScript.Proofs.Emission

/-!
# What a function can touch

What a run of a function does to its surroundings can be read off the program
before it is run. The functions that it can call are those that are reachable
through call statements (`MayCall`). The global variables that it can bind are
`$return` and those that their assigning statements name, as they stand in the
program (`MayBind`); the frames that it can send are those of the instructions
that their statements name (`MaySend`). A run keeps to that, however it ends:
`run_footprint`.

Nothing is said of local variables: whether an assignment goes to a local or to
a global variable is decided at run time, so its name counts in any case.
-/

namespace BusScript

open Relation (ReflTransGen)

/-! ### Names in the program -/

/-- A statement names a global variable that it may bind: before the first `=` of its `content`,
or as the target of an assignment. -/
inductive Statement.Binds (s : Statement) : String → Prop
  | content {name value : String} (hform : s.form = .setGlobal)
      (hcontent : s.content = name ++ "=" ++ value) (hname : '=' ∉ name.toList) : Binds s name
  | target {v : Tagged} (hform : s.form = .setVar)
      (hv : s.args.get? Statement.targetArg = some v) : Binds s v.payload

namespace Memory

variable {m m' : Memory} {name : String}

theorem parseBinding_eq_ok {content : String} {v : Tagged}
    (h : parseBinding content = .ok (name, v)) :
    ∃ value, content = name ++ "=" ++ value ∧ '=' ∉ name.toList := by
  unfold parseBinding Text.cut at h
  cases hcut : Text.cut? content "=" with
  | none => simp [hcut] at h
  | some parts =>
      obtain ⟨left, right⟩ := parts
      simp only [hcut, Option.getD_some] at h
      split at h
      · cases h
      · cases h
        exact ⟨right, Text.cut?_eq_some rfl hcut⟩

theorem eval_eq_ok_iff {u v : Tagged} :
    m.eval u = .ok v ↔ Scopes.eval m.scopes u = .ok (some v) := by
  unfold eval
  cases Scopes.eval m.scopes u with
  | error cycle => simp
  | ok found => cases found <;> simp

/-- What `eval` gives is no reference. -/
theorem isVar_of_eval {u v : Tagged} (h : m.eval u = .ok v) : v.isVar = false :=
  Scopes.isVar_of_eval (eval_eq_ok_iff.1 h)

theorem isVar_of_arg {s : Statement} {v : Tagged} (h : m.arg s name = .ok v) :
    v.isVar = false := by
  unfold arg at h
  cases hv : s.args.get? name with
  | none => rw [hv] at h; cases h
  | some u => rw [hv] at h; exact isVar_of_eval h

theorem isVar_of_combine {op : Operator} {held v v' : Tagged} (h : m.combine op held v = .ok v') :
    v'.isVar = false := by
  unfold combine at h
  cases hheld : m.eval held with
  | error e => rw [hheld] at h; cases h
  | ok current =>
      rw [hheld] at h
      cases happly : op.apply current v with
      | error e => simp only [happly] at h; cases h
      | ok u => simp only [happly] at h; cases h; exact Operator.isVar_of_apply happly

theorem isVar_of_rightSide {s : Statement} {first v : Tagged} (hfirst : first.isVar = false)
    (h : m.rightSide s first = .ok v) : v.isVar = false := by
  unfold rightSide at h
  split at h
  · cases hsign : m.arg s Statement.operatorArg with
    | error e => simp only [hsign] at h; cases h
    | ok sign =>
        cases hsecond : m.arg s Statement.secondArg with
        | error e => simp only [hsign, hsecond] at h; cases h
        | ok second =>
            simp only [hsign, hsecond] at h
            cases happly : Operator.applySign sign.payload first second with
            | error e => rw [happly] at h; cases h
            | ok u => rw [happly] at h; cases h; exact Operator.isVar_of_applySign happly
  · cases h
    exact hfirst
  · cases h

/-- A compound assignment binds the variable `name`, as a local or a global one, and never to a
reference. -/
theorem compound_eq_ok {op : Operator} {v : Tagged} (h : m.compound name op v = .ok m') :
    ∃ v', v'.isVar = false ∧ (m' = m.setLocal name v' ∨ m' = m.setGlobal name v') := by
  unfold compound at h
  cases hlocal : m.locals.get? name with
  | some held =>
      rw [hlocal] at h
      dsimp only at h
      cases hv : m.combine op held v with
      | error f => rw [hv] at h; cases h
      | ok v' => rw [hv] at h; cases h; exact ⟨v', isVar_of_combine hv, .inl rfl⟩
  | none =>
      rw [hlocal] at h
      cases hglobal : m.globals.get? name with
      | none => rw [hglobal] at h; cases h
      | some held =>
          rw [hglobal] at h
          dsimp only at h
          cases hv : m.combine op held v with
          | error f => rw [hv] at h; cases h
          | ok v' => rw [hv] at h; cases h; exact ⟨v', isVar_of_combine hv, .inr rfl⟩

theorem assign_eq_ok {sign : String} {v : Tagged} (hv : v.isVar = false)
    (h : m.assign name sign v = .ok m') :
    ∃ v', v'.isVar = false ∧ (m' = m.setLocal name v' ∨ m' = m.setGlobal name v') := by
  unfold assign at h
  cases hsign : Assignment.ofSign? sign with
  | none => rw [hsign] at h; cases h
  | some assignment =>
      rw [hsign] at h
      cases assignment with
      | toGlobal => cases h; exact ⟨v, hv, .inr rfl⟩
      | toLocal => cases h; exact ⟨v, hv, .inl rfl⟩
      | update op => exact compound_eq_ok h

/-- A `setVar` binds the variable that its target names, and never to a reference. -/
theorem setVar_eq_ok {s : Statement} (h : m.setVar s = .ok m') :
    ∃ v v', s.args.get? Statement.targetArg = some v ∧ v'.isVar = false ∧
      (m' = m.setLocal v.payload v' ∨ m' = m.setGlobal v.payload v') := by
  unfold setVar target at h
  cases hv : s.args.get? Statement.targetArg with
  | none => simp [hv] at h
  | some v =>
      simp only [hv] at h
      by_cases hempty : v.payload = ""
      · simp [hempty] at h
      · rw [if_neg hempty] at h
        dsimp only at h
        -- name, sign and operands are read before anything is bound
        cases hsign : m.arg s Statement.assignArg with
        | error e => simp [hsign] at h
        | ok sign =>
            cases hfirst : m.arg s Statement.operandArg with
            | error e => simp [hsign, hfirst] at h
            | ok first =>
                simp only [hsign, hfirst] at h
                cases hright : m.rightSide s first with
                | error f => simp [hright] at h
                | ok x =>
                    rw [hright] at h
                    have hx := isVar_of_rightSide (isVar_of_arg hfirst) hright
                    obtain ⟨v', hv', hm'⟩ := assign_eq_ok hx h
                    exact ⟨v, v', rfl, hv', hm'⟩

end Memory

/-- Global variables that an assigning statement does not name (`Binds`) keep their values. -/
theorem Statement.Assigns.get?_globals {s : Statement} {m m' : Memory} (h : s.Assigns m m')
    {x : String} (hx : ¬ s.Binds x) : m'.globals.get? x = m.globals.get? x := by
  cases h with
  | setVar hform hm =>
      obtain ⟨v, v', hv, -, rfl | rfl⟩ := Memory.setVar_eq_ok hm
      · rfl
      · have hne : x ≠ v.payload := by
          rintro rfl
          exact hx (.target hform hv)
        simp [Memory.setGlobal, Store.get?_set, hne]
  | setLocal hform hm =>
      unfold Memory.setLocalStatement at hm
      cases hparse : Memory.parseBinding s.content with
      | error e => simp [hparse] at hm
      | ok binding =>
          simp only [hparse, Except.ok.injEq] at hm
          rw [← hm]
          rfl
  | setGlobal hform hm =>
      unfold Memory.setGlobalStatement at hm
      cases hparse : Memory.parseBinding s.content with
      | error e => simp [hparse] at hm
      | ok binding =>
          simp only [hparse, Except.ok.injEq] at hm
          obtain ⟨value, hcontent, hname⟩ := Memory.parseBinding_eq_ok hparse
          have hne : x ≠ binding.1 := by
            rintro rfl
            exact hx (.content hform hcontent hname)
          simp [← hm, Memory.setGlobal, Store.get?_set, hne]

namespace Engine

variable {E : Engine} {f g : Function} {w w' w'' : World}

/-! ### What is reachable -/

/-- A statement of the function `f` names the function `g`. -/
def MayCall (E : Engine) (f g : Function) : Prop :=
  ∃ s ∈ f.body, s.form = .callFunction ∧ E.findFunction? s.content = some g

/-- Some function within reach of `f`, by `MayCall`, names a global variable that it may bind.
Every function may bind `$return`. -/
def MayBind (E : Engine) (f : Function) (x : String) : Prop :=
  x = returnName ∨ ∃ g, ReflTransGen E.MayCall f g ∧ ∃ s ∈ g.body, s.Binds x

/-- A frame has name and identifier of an instruction that some function within reach of `f`, by
`MayCall`, names. -/
def MaySend (E : Engine) (f : Function) (frame : Frame) : Prop :=
  ∃ g, ReflTransGen E.MayCall f g ∧ ∃ s ∈ g.body, s.form = .callInstruction ∧
    ∃ i, E.findInstruction? s.content = some i ∧ frame.name = i.name ∧ frame.canId = i.canId

theorem mem_body_of_current? {a : Activation} {s : Statement} (h : a.current? = some s) :
    s ∈ a.function.body :=
  List.mem_of_getElem? h

/-- The visited configurations are in functions within reach of `MayCall`. -/
theorem mayCall_of_visits {c c' : Configuration} (h : E.Visits c c') :
    ReflTransGen E.MayCall c.activation.function c'.activation.function := by
  induction h with
  | here c => exact .refl
  | next hs hstep h ih =>
      have hfunction := (action_of_step hstep).function_eq
      exact hfunction ▸ ih
  | call hs hform hactuals hentry h ih =>
      exact .head ⟨_, mem_body_of_current? hs, hform, (entry_eq_ok_iff.1 hentry).1⟩ ih

theorem MayBind.mono {x : String} (hfg : ReflTransGen E.MayCall f g) (h : E.MayBind g x) :
    E.MayBind f x := by
  rcases h with rfl | ⟨g', hg', hs⟩
  · exact .inl rfl
  · exact .inr ⟨g', hfg.trans hg', hs⟩

/-! ### Runs -/

theorem ne_returnName_of_not_mayBind {x : String} (h : ¬ E.MayBind f x) : x ≠ returnName :=
  fun heq => h (.inl heq)

/-- Between the worlds `w` and `w'`, nothing is bound anew but what the function `f` may bind,
and nothing is sent but what it may send. -/
structure Footprint (E : Engine) (f : Function) (w w' : World) : Prop where
  globals : ∀ x, ¬ E.MayBind f x → w'.globals.get? x = w.globals.get? x
  frames : World.Emits (E.MaySend f) w w'

namespace Footprint

theorem trans (h : E.Footprint f w w') (h' : E.Footprint f w' w'') : E.Footprint f w w'' where
  globals := by
    intro x hx
    rw [h'.globals x hx, h.globals x hx]
  frames := h.frames.trans h'.frames

theorem forgetReturn (w : World) : E.Footprint f w w.forgetReturn where
  globals := by
    intro x hx
    simp [World.forgetReturn, Store.get?_erase, ne_returnName_of_not_mayBind hx]
  frames := .forgetReturn w

theorem enter (w : World) (name : String) :
    E.Footprint f w (w.record (.enter name)).forgetReturn :=
  have hrecord : E.Footprint f w (w.record (.enter name)) := ⟨fun _ _ => rfl, .record rfl rfl⟩
  hrecord.trans (forgetReturn _)

end Footprint

/-- A configuration binds what its function may bind (`MayBind`). -/
theorem get?_globals_of_acts {c : Configuration} (h : E.Acts c w') {x : String}
    (hx : ¬ E.MayBind c.activation.function x) :
    w'.globals.get? x = c.world.globals.get? x := by
  have hreturn := ne_returnName_of_not_mayBind hx
  cases h with
  | report text hserious => rfl
  | assign hs hm =>
      refine hm.get?_globals fun hbinds => hx (.inr ⟨_, .refl, ?_⟩)
      exact ⟨_, mem_body_of_current? hs, hbinds⟩
  | keep v => simp [World.keepReturn, Store.get?_set, hreturn]
  | send hsends hi hframe htext => rfl
  | enter name => simp [World.forgetReturn, Store.get?_erase, hreturn]
  | forget => simp [World.forgetReturn, Store.get?_erase, hreturn]

/-- A frame that is sent on the way is one that the function may send (`MaySend`). -/
theorem maySend_of_encodesFrom {c : Configuration} {frame : Frame}
    (h : E.EncodesFrom c frame) : E.MaySend c.activation.function frame := by
  obtain ⟨d, name, actuals, hvisit, hsends, i, hi, hencode⟩ := h
  obtain ⟨-, hid, hname, -⟩ := Instruction.encode_eq_ok_iff.1 hencode
  cases hsends with
  | intro hs hform hactuals =>
      exact ⟨_, mayCall_of_visits hvisit, _, mem_body_of_current? hs, hform, i, hi, hname, hid⟩

/-- A chain of `Changes` stays within the `Footprint` of the function in which it starts. -/
theorem footprint_of_changes {c : Configuration} (h : ReflTransGen (E.Changes c) w w') :
    E.Footprint c.activation.function w w' where
  globals := by
    intro x hx
    induction h with
    | refl => rfl
    | tail _ hchange ih =>
        obtain ⟨d, hvisit, rfl, hacts⟩ := hchange
        rw [← ih]
        exact get?_globals_of_acts hacts fun hbind => hx (hbind.mono (mayCall_of_visits hvisit))
  frames := (emits_of_changes h).mono fun _ => maySend_of_encodesFrom

theorem footprint_of_entry {depth : Int} {name : String} {o : Outcome}
    (h : E.entry depth name w = .error o) : E.Footprint f w o.world where
  globals := by
    intro x hx
    rcases entry_error_cases h with ⟨-, rfl⟩ | ⟨limit, -, hr⟩
    · rfl
    · cases hr <;> rfl
  frames := emits_of_entry h

/-- A run of a function binds no global variable but `$return` and those that reachable
statements name, and sends no frames but those of instructions that reachable statements name:
when it is executed, when it is called, and at every configuration that it `Visits`. -/
theorem run_footprint (E : Engine) (f : Function) (args : Store) (depth : Int) (w : World) :
    (∀ fuel o, E.execute fuel depth f args w = some o → E.Footprint f w o.world) ∧
    (∀ fuel name o, E.findFunction? name = some f → E.call fuel depth name args w = some o →
      E.Footprint f w o.world) ∧
    ∀ c, E.Visits ⟨depth, .start f args, w⟩ c → E.Footprint f w c.world := by
  refine ⟨?_, ?_, ?_⟩
  · intro fuel o h
    exact (Footprint.forgetReturn w).trans (footprint_of_changes (changes_of_run h))
  · intro fuel name o hf h
    rw [call_eq] at h
    cases hentry : E.entry depth name w with
    | error o' =>
        rw [hentry] at h
        cases h
        exact footprint_of_entry hentry
    | ok g =>
        rw [hentry] at h
        have hfg : some f = some g := hf.symm.trans (entry_eq_ok_iff.1 hentry).1
        cases hfg
        exact (Footprint.enter w name).trans (footprint_of_changes (changes_of_run h))
  · intro c hvisit
    exact footprint_of_changes (changes_of_visits hvisit)

/-- A function `f` that has a variable bound and an instruction sent by another one, `g`. -/
def delegating : Engine where
  frameSize := none
  instructions := [("mark", ⟨"mark", .number 3, [⟨"x", "u8", "", ""⟩], ""⟩)]
  functions :=
    [("f", .make "f" [] [.callFunction "g" {} ""] ""),
    ("g", .make "g" [] [.setVar "x" ":=" ⟨"int", "5"⟩ "" ⟨"", ""⟩ "",
      .callInstruction "mark" (.ofList [("x", ⟨"var", "x"⟩)]) ""] "")]

theorem run_footprint_delegating :
    ∃ o, delegating.call 9 0 "f" {} ⟨.ofList [("y", ⟨"int", "1"⟩)], #[]⟩ = some o ∧
      o.world.globals = .ofList [("y", ⟨"int", "1"⟩), ("x", ⟨"int", "5"⟩)] ∧
      o.world.frames = [⟨.number 3, [5], "mark"⟩] ∧
      delegating.Footprint (.make "f" [] [.callFunction "g" {} ""] "")
        ⟨.ofList [("y", ⟨"int", "1"⟩)], #[]⟩ o.world := by
  have hrun : (delegating.call 9 0 "f" {} ⟨.ofList [("y", ⟨"int", "1"⟩)], #[]⟩).map
      (fun o => (o.world.globals, o.world.frames)) =
        some (.ofList [("y", ⟨"int", "1"⟩), ("x", ⟨"int", "5"⟩)], [⟨.number 3, [5], "mark"⟩]) := by
    decide +kernel
  obtain ⟨o, ho, heq⟩ := Option.map_eq_some_iff.1 hrun
  obtain ⟨hglobals, hframes⟩ := Prod.mk.inj heq
  exact ⟨o, ho, hglobals, hframes, (run_footprint delegating _ {} 0 _).2.1 9 "f" o rfl ho⟩

end Engine

end BusScript
