import BusScript.Proofs.Footprint

/-!
# Where references come from

A variable can be bound to a reference, which is followed whenever the variable
is read, and references that lead back to themselves are an error. Most of what
a program binds are no references: operands, returned values and arguments are
resolved before they are stored. Only the statements that bind a variable to a
literal value store what stands in the program, so all references that a run
adds to the variables can be read off the program (`MayRefer`).

`Store.Derives` relates two stores of which the second has no references but
those of the first and given others. Steps keep to it, hence runs
(`derives_of_run`) and the configurations on their way (`traced_of_visits`).
-/

namespace BusScript

/-! ### Stores -/

theorem Tagged.eq_reference {v : Tagged} (h : v.isVar = true) : v = .reference v.payload := by
  obtain ⟨tag, payload⟩ := v
  simp only [isVar, decide_eq_true_eq] at h
  rw [reference, h]

namespace Store

/-- A store binds the name `x` to a reference to `y`. -/
def Refers (s : Store) (x y : String) : Prop := s.get? x = some (.reference y)

/-- A store binds no name to a reference (`isVar`). -/
def Resolved (s : Store) : Prop := ∀ x v, s.get? x = some v → v.isVar = false

/-- The store `s'` has no references but those of `s`, and those of `P`. -/
def Derives (P : String → String → Prop) (s s' : Store) : Prop :=
  ∀ x y, s'.Refers x y → s.Refers x y ∨ P x y

variable {P Q : String → String → Prop} {s s' s'' : Store}

theorem Derives.refl (s : Store) : Derives P s s := fun _ _ h => .inl h

theorem Derives.trans (h : Derives P s s') (h' : Derives P s' s'') : Derives P s s'' := by
  intro x y hxy
  rcases h' x y hxy with hxy | hP
  · exact h x y hxy
  · exact .inr hP

theorem Derives.mono (hPQ : ∀ x y, P x y → Q x y) (h : Derives P s s') : Derives Q s s' :=
  fun x y hxy => (h x y hxy).imp_right (hPQ x y)

theorem Derives.erase (s : Store) (name : String) : Derives P s (s.erase name) := by
  intro x y hxy
  rw [Refers, get?_erase] at hxy
  split at hxy
  · cases hxy
  · exact .inl hxy

/-- To `set` a name adds at most the reference that the value is. -/
theorem Derives.set (s : Store) {name : String} {v : Tagged}
    (hv : ∀ y, v = .reference y → P name y) : Derives P s (s.set name v) := by
  intro x y hxy
  rw [Refers, get?_set] at hxy
  split at hxy
  · rename_i hx
    split at hxy
    · cases hxy
    · rw [hx]
      exact .inr (hv y (Option.some.inj hxy))
  · exact .inl hxy

/-- A value that is no reference can be bound to any name by `set`. -/
theorem Derives.set_of_isVar (s : Store) {name : String} {v : Tagged} (hv : v.isVar = false) :
    Derives P s (s.set name v) := by
  refine .set s ?_
  rintro y rfl
  cases hv

theorem Resolved.derives (h : s'.Resolved) : Derives P s s' := fun x _ hxy => nomatch h x _ hxy

/-- What is derived from a `Resolved` store without any new reference is `Resolved`. -/
theorem Derives.resolved (h : Derives P s s') (hP : ∀ x y, ¬ P x y) (hs : s.Resolved) :
    s'.Resolved := by
  intro x v hv
  cases hvar : v.isVar with
  | false => rfl
  | true =>
      rw [Tagged.eq_reference hvar] at hv
      rcases h x _ hv with hv | hxy
      · exact nomatch hs x _ hv
      · exact absurd hxy (hP _ _)

theorem resolved_empty : Resolved empty := nofun

theorem resolved_ofList {bs : List (String × Tagged)} (h : ∀ b ∈ bs, b.2.isVar = false) :
    (ofList bs).Resolved := by
  suffices hfold : ∀ s : Store,
      Derives (fun _ _ => False) s (bs.foldl (fun s b => s.set b.1 b.2) s) from
    (hfold empty).resolved (fun _ _ => id) resolved_empty
  induction bs with
  | nil => exact Derives.refl
  | cons b bs ih =>
      intro s
      have hb : b.2.isVar = false := h b List.mem_cons_self
      exact (Derives.set_of_isVar s hb).trans (ih (fun b hb => h b (List.mem_cons_of_mem _ hb)) _)

end Store

/-! ### Statements -/

/-- The content of a statement is `x=var:y`: it binds a name to a reference. -/
structure Statement.Declares (s : Statement) (x y : String) : Prop where
  content : s.content = x ++ "=" ++ ("var:" ++ y)
  named : x ≠ ""
  /-- The name ends at the first `=`. -/
  first : '=' ∉ x.toList

theorem Tagged.parse_eq_reference_iff {text y : String} :
    parse text = .reference y ↔ text = "var:" ++ y := by
  unfold parse Text.cut
  constructor
  · intro h
    cases hcut : Text.cut? text ":" with
    | none =>
        simp only [hcut, Option.getD_none, reference, Tagged.mk.injEq] at h
        exact absurd h.1 (by decide)
    | some parts =>
        obtain ⟨tag, payload⟩ := parts
        simp only [hcut, Option.getD_some, reference, Tagged.mk.injEq] at h
        obtain ⟨rfl, rfl⟩ := h
        exact (Text.cut?_eq_some rfl hcut).1
  · rintro rfl
    have htag : "var:" = "var" ++ ":" := by decide
    rw [htag, Text.cut?_append rfl (by decide)]
    rfl

/-- What a statement `Declares` is what `parseBinding` makes of its content. -/
theorem Statement.declares_iff {s : Statement} {x y : String} :
    s.Declares x y ↔ Memory.parseBinding s.content = .ok (x, .reference y) := by
  unfold Memory.parseBinding Text.cut
  constructor
  · rintro ⟨hcontent, hnamed, hfirst⟩
    rw [hcontent, Text.cut?_append rfl hfirst]
    simp only [Option.getD_some, if_neg hnamed, Tagged.parse_eq_reference_iff.2 rfl]
  · intro h
    cases hcut : Text.cut? s.content "=" with
    | none => simp [hcut] at h
    | some parts =>
        obtain ⟨left, right⟩ := parts
        simp only [hcut, Option.getD_some] at h
        by_cases hleft : left = ""
        · rw [if_pos hleft] at h
          cases h
        · rw [if_neg hleft] at h
          obtain ⟨rfl, hparse⟩ := Prod.mk.inj (Except.ok.inj h)
          obtain ⟨hcontent, hfirst⟩ := Text.cut?_eq_some rfl hcut
          rw [Tagged.parse_eq_reference_iff.1 hparse] at hcontent
          exact ⟨hcontent, hleft, hfirst⟩

namespace Memory

variable {m : Memory} {s : Statement}

theorem isVar_of_evalAll {bs vs : List (String × Tagged)} (h : m.evalAll bs = .ok vs) :
    ∀ b ∈ vs, b.2.isVar = false := by
  induction bs generalizing vs with
  | nil => cases h; simp
  | cons b bs ih =>
      obtain ⟨name, u⟩ := b
      rw [evalAll] at h
      cases hu : m.eval u with
      | error e => rw [hu] at h; cases h
      | ok v =>
          cases hrest : m.evalAll bs with
          | error e => simp only [hu, hrest] at h; cases h
          | ok rest =>
              simp only [hu, hrest] at h
              cases h
              exact List.forall_mem_cons.2 ⟨isVar_of_eval hu, ih hrest⟩

/-- The `actuals` that a call statement passes are `Resolved`. -/
theorem resolved_of_actuals {store : Store} (h : m.actuals s = .ok store) : store.Resolved := by
  unfold actuals at h
  cases hvs : m.evalAll s.args.bindings with
  | error e => rw [hvs] at h; cases h
  | ok vs =>
      rw [hvs] at h
      cases h
      exact Store.resolved_ofList (isVar_of_evalAll hvs)

end Memory

/-- Assigning adds no references but those that a statement `Declares`: a local one by a
`setLocal`, a global one by a `setGlobal`. -/
theorem Statement.Assigns.derives {s : Statement} {m m' : Memory} (h : s.Assigns m m') :
    Store.Derives (fun x y => s.form = .setLocal ∧ s.Declares x y) m.locals m'.locals ∧
    Store.Derives (fun x y => s.form = .setGlobal ∧ s.Declares x y) m.globals m'.globals := by
  cases h with
  | setVar hform hm =>
      obtain ⟨v, v', -, hv', rfl | rfl⟩ := Memory.setVar_eq_ok hm
      · exact ⟨.set_of_isVar _ hv', .refl _⟩
      · exact ⟨.refl _, .set_of_isVar _ hv'⟩
  | setLocal hform hm =>
      unfold Memory.setLocalStatement at hm
      cases hparse : Memory.parseBinding s.content with
      | error e => rw [hparse] at hm; cases hm
      | ok binding =>
          rw [hparse] at hm
          cases hm
          refine ⟨.set _ ?_, .refl _⟩
          intro y hy
          exact ⟨hform, declares_iff.2 (by rw [hparse, ← hy])⟩
  | setGlobal hform hm =>
      unfold Memory.setGlobalStatement at hm
      cases hparse : Memory.parseBinding s.content with
      | error e => rw [hparse] at hm; cases hm
      | ok binding =>
          rw [hparse] at hm
          cases hm
          refine ⟨.refl _, .set _ ?_⟩
          intro y hy
          exact ⟨hform, declares_iff.2 (by rw [hparse, ← hy])⟩

/-- A `ret` keeps the value of its expression, which is no reference, or it keeps nothing. -/
theorem Activation.ret_cases (a : Activation) (s : Statement) (w : World) :
    ∃ a' w', a.ret s w = .next a' w' ∧ a'.args = a.args ∧ a'.locals = a.locals ∧
      ((a'.result = a.result ∧ w'.globals = w.globals) ∨
        ∃ v, v.isVar = false ∧ a'.result = some v ∧ w'.globals = w.globals.set returnName v) := by
  unfold ret
  cases heval : Scopes.eval (a.memory w).scopes (.parse s.content) with
  | error cycle => exact ⟨_, _, rfl, rfl, rfl, .inl ⟨rfl, rfl⟩⟩
  | ok v? =>
      cases v? with
      | none => exact ⟨_, _, rfl, rfl, rfl, .inl ⟨rfl, rfl⟩⟩
      | some v =>
          dsimp only
          split
          · exact ⟨_, _, rfl, rfl, rfl, .inl ⟨rfl, rfl⟩⟩
          · exact ⟨_, _, rfl, rfl, rfl, .inr ⟨v, Scopes.isVar_of_eval heval, rfl, rfl⟩⟩

namespace Engine

open Relation (ReflTransGen)

variable {E : Engine} {depth : Int} {a : Activation} {s : Statement} {f g : Function} {w : World}

/-! ### Runs -/

/-- Some statement of the given `form`, within reach of `f` by `MayCall`, `Declares` a
reference. -/
def MayRefer (E : Engine) (form : Form) (f : Function) (x y : String) : Prop :=
  ∃ g, ReflTransGen E.MayCall f g ∧ ∃ s ∈ g.body, s.form = form ∧ s.Declares x y

theorem MayRefer.mono {form : Form} {x y : String} (hfg : ReflTransGen E.MayCall f g)
    (h : E.MayRefer form g x y) : E.MayRefer form f x y := by
  obtain ⟨g', hg', hs⟩ := h
  exact ⟨g', hfg.trans hg', hs⟩

theorem mayRefer_of_current? {form : Form} {x y : String} (hs : a.current? = some s)
    (h : s.form = form ∧ s.Declares x y) : E.MayRefer form a.function x y :=
  ⟨_, .refl, s, mem_body_of_current? hs, h⟩

theorem mayCall_of_current? {level : Int} (hs : a.current? = some s)
    (hform : s.form = .callFunction) (hentry : E.entry level s.content w = .ok f) :
    E.MayCall a.function f :=
  ⟨s, mem_body_of_current? hs, hform, (entry_eq_ok_iff.1 hentry).1⟩

theorem globals_of_send (name : String) (actuals : Store) :
    (E.send name actuals w).2.globals = w.globals := by
  obtain ⟨frame, text, hsend⟩ | ⟨-, hsend⟩ | ⟨e, hsend⟩ | ⟨n, -, -, hsend⟩ :=
    E.send_cases name actuals w <;> rw [hsend] <;> rfl

theorem globals_of_entry {name : String} {o : Outcome} (h : E.entry depth name w = .error o) :
    o.world.globals = w.globals := by
  rcases entry_error_cases h with ⟨-, rfl⟩ | ⟨limit, -, hr⟩
  · rfl
  · cases hr <;> rfl

/-- A `step` adds no references to the global variables but those of `MayRefer`. -/
theorem derives_of_step {fuel : Nat} {t : Turn} (hs : a.current? = some s)
    (hrun : ∀ {a : Activation} {w : World} {o : Outcome}, E.run fuel (depth + 1) a w = some o →
      Store.Derives (E.MayRefer .setGlobal a.function) w.globals o.world.globals)
    (h : E.step (E.call fuel (depth + 1)) a s w = some t) :
    Store.Derives (E.MayRefer .setGlobal a.function) w.globals t.world.globals := by
  cases action_of_step h with
  | move pos loops => exact .refl _
  | report pos text => exact .refl _
  | assign hm => exact hm.derives.2.mono fun x y => mayRefer_of_current? hs
  | keep hv hne => exact .set_of_isVar _ (Scopes.isVar_of_eval hv)
  | send hform hactuals =>
      rw [world_resume, globals_of_send]
      exact .refl _
  | unpaired e => exact .refl _
  | overlong => exact .refl _
  | @call actuals o hform hactuals hcall =>
      rw [world_resume]
      rw [call_eq] at hcall
      cases hentry : E.entry (depth + 1) s.content w with
      | error o' =>
          rw [hentry] at hcall
          cases hcall
          rw [globals_of_entry hentry]
          exact .refl _
      | ok f =>
          rw [hentry] at hcall
          have hreach := ReflTransGen.single (mayCall_of_current? hs hform hentry)
          exact (Store.Derives.erase w.globals returnName).trans
            ((hrun hcall).mono fun x y => .mono hreach)

/-- Nor does a whole run, by induction on the `fuel`. -/
theorem derives_of_run {fuel : Nat} {o : Outcome} (h : E.run fuel depth a w = some o) :
    Store.Derives (E.MayRefer .setGlobal a.function) w.globals o.world.globals := by
  induction fuel generalizing depth a w o with
  | zero => simp at h
  | succ fuel ih =>
      cases hs : a.current? with
      | none =>
          rw [run_of_over hs] at h
          cases h
          unfold Activation.finish
          cases a.result with
          | some v => exact .refl _
          | none => exact .erase _ _
      | some s =>
          rw [run_of_current? hs] at h
          obtain ⟨t, ht, hfollow⟩ := Option.bind_eq_some_iff.1 h
          have hstep := derives_of_step hs ih ht
          cases t with
          | stop f w' =>
              cases hfollow
              exact hstep
          | next a' w' =>
              have hfunction := (action_of_step ht).function_eq
              exact hstep.trans (hfunction ▸ ih hfollow)

/-- A `step` leaves the arguments as they are, and adds no references to the local variables but
those of `MayRefer`. -/
theorem derives_locals_of_step {call : String → Store → World → Option Outcome} {a' : Activation}
    {w' : World} (hs : a.current? = some s) (h : E.step call a s w = some (.next a' w')) :
    a'.args = a.args ∧ Store.Derives (E.MayRefer .setLocal a.function) a.locals a'.locals := by
  have haction := action_of_step h
  generalize ht : Turn.next a' w' = t at haction
  cases haction with
  | assign hm =>
      cases ht
      exact ⟨rfl, hm.derives.1.mono fun x y => mayRefer_of_current? hs⟩
  | send hform hactuals => rw [(next_of_resume ht).1]; exact ⟨rfl, .refl _⟩
  | call hform hactuals hcall => rw [(next_of_resume ht).1]; exact ⟨rfl, .refl _⟩
  | unpaired e => cases ht
  | overlong => cases ht
  | _ => cases ht; exact ⟨rfl, .refl _⟩

/-- The configuration `c'` has no references but those of `c`, and those that `f` may declare
(`MayRefer`). Arguments are never declared. -/
structure Traced (E : Engine) (f : Function) (c c' : Configuration) : Prop where
  args : Store.Derives (fun _ _ => False) c.activation.args c'.activation.args
  locals : Store.Derives (E.MayRefer .setLocal f) c.activation.locals c'.activation.locals
  globals : Store.Derives (E.MayRefer .setGlobal f) c.world.globals c'.world.globals

theorem Traced.trans {c c' c'' : Configuration} (h : E.Traced f c c') (h' : E.Traced f c' c'') :
    E.Traced f c c'' :=
  ⟨h.args.trans h'.args, h.locals.trans h'.locals, h.globals.trans h'.globals⟩

theorem Traced.mono {c c' : Configuration} (hfg : ReflTransGen E.MayCall f g)
    (h : E.Traced g c c') : E.Traced f c c' :=
  ⟨h.args, h.locals.mono fun _ _ => .mono hfg, h.globals.mono fun _ _ => .mono hfg⟩

/-- Wherever a run comes to, all references were there at its start or are declared by the
program: what it `Visits` is `Traced`. -/
theorem traced_of_visits {c c' : Configuration} (h : E.Visits c c') :
    E.Traced c.activation.function c c' := by
  induction h with
  | here c => exact ⟨.refl _, .refl _, .refl _⟩
  | @next depth a a' w w' s fuel c hs hstep h ih =>
      have hfunction : a'.function = a.function := (action_of_step hstep).function_eq
      obtain ⟨hargs, hlocals⟩ := derives_locals_of_step hs hstep
      have hfirst : E.Traced a.function ⟨depth, a, w⟩ ⟨depth, a', w'⟩ :=
        ⟨hargs ▸ .refl _, hlocals, derives_of_step hs derives_of_run hstep⟩
      exact hfirst.trans (hfunction ▸ ih)
  | @call depth a w s actuals f c hs hform hactuals hentry h ih =>
      -- the stores of the callee start anew, with resolved arguments
      have hresolved := Memory.resolved_of_actuals hactuals
      have hfirst : E.Traced a.function ⟨depth, a, w⟩
          (.entered (depth + 1) s.content f actuals w) :=
        ⟨hresolved.derives, hresolved.derives, .erase _ _⟩
      have hcallee := ih.mono (.single (mayCall_of_current? hs hform hentry))
      exact hfirst.trans hcallee

end Engine

end BusScript
