import BusScript.Proofs.Acceptance
import BusScript.Proofs.FailStop
import BusScript.Proofs.Passes
import BusScript.Proofs.Provenance
import BusScript.Proofs.Reference

/-!
# Passing arguments

A call statement evaluates its arguments where it stands, in their order, before
anything is looked up under the name that it calls. What it passes are the same names
with the values of the expressions: no name is lost, because no variable holds
the empty value, and no value is a reference. Hence an encoder finds the values at once,
and a function reads its arguments as they were when it was called, since they shadow
all that it assigns.

* `actuals_eq_ok_iff`, `actuals_eq_error_iff` — what is passed, and which argument
  stops a call;
* `isReference_of_encode` — how passed arguments can fail to be encoded;
* `eval_of_path` — what a function reads on its way.
-/

namespace BusScript

open Relation (ReflTransGen)

namespace Scopes

variable {scopes : Scopes} {name : String} {u v : Tagged}

/-- No scope holds a value that `isEmpty`. -/
theorem isEmpty_of_lookup? (h : lookup? scopes name = some v) : v.isEmpty = false := by
  obtain ⟨store, -, hv⟩ := List.exists_of_findSome?_eq_some h
  exact Store.isEmpty_of_get? hv

theorem isEmpty_of_eval (hu : u.isEmpty = false) (h : eval scopes u = .ok (some v)) :
    v.isEmpty = false := by
  unfold eval at h
  split at h
  · obtain ⟨k, last, -, -, hlast⟩ := resolve_eq_ok_iff.1 h
    exact isEmpty_of_lookup? hlast
  · cases h
    exact hu

/-- A name whose `walk` leads to a bound value has that value. -/
theorem eval_reference_of_walk {k : Nat} {last : String} (hwalk : walk scopes k name = some last)
    (hlast : lookup? scopes last = some v) (hv : v.isVar = false) :
    eval scopes (.reference name) = .ok (some v) := by
  show resolve scopes name = .ok (some v)
  exact resolve_eq_ok_iff.2 ⟨k, last, hwalk, (next?_eq_none_iff hlast).2 hv, hlast⟩

end Scopes

/-! ### What is passed -/

namespace Memory

/-- The expression `v` has no value: it leads to a name that is not bound, or comes back to
itself. -/
inductive Lacks (m : Memory) (v : Tagged) : BindingError → Prop
  | undefined (h : Scopes.eval m.scopes v = .ok none) : Lacks m v (.undefined v.payload)
  | cyclic {cycle : Cycle} (h : Scopes.eval m.scopes v = .error cycle) :
      Lacks m v (.cyclic cycle)

/-- The binding `b` is passed as `b'`: under its name, with the value of its expression. -/
structure PassedAs (m : Memory) (b b' : String × Tagged) : Prop where
  name : b'.1 = b.1
  value : Scopes.eval m.scopes b.2 = .ok (some b'.2)
  nonempty : b'.2.isEmpty = false
  plain : b'.2.isVar = false

/-- The first of the bindings `bs` without a value, and the error `e` for which it has none. -/
inductive StopsAt (m : Memory) (bs : List (String × Tagged)) (e : BindingError) : Prop
  | mk {before after : List (String × Tagged)} {b : String × Tagged}
      (hbs : bs = before ++ b :: after)
      (hbefore : ∀ b ∈ before, ∃ v, Scopes.eval m.scopes b.2 = .ok (some v))
      (hb : m.Lacks b.2 e)

variable {m : Memory} {s : Statement} {bs vs : List (String × Tagged)} {e : BindingError}

theorem eval_eq_error_iff {v : Tagged} : m.eval v = .error e ↔ m.Lacks v e := by
  unfold eval
  constructor
  · intro h
    split at h
    · rename_i heval
      cases h
      exact .cyclic heval
    · rename_i heval
      cases h
      exact .undefined heval
    · cases h
  · intro h
    cases h with
    | undefined h => simp only [h]
    | cyclic h => simp only [h]

theorem passedAs_iff {name name' : String} {u v : Tagged} (hu : u.isEmpty = false) :
    m.PassedAs (name, u) (name', v) ↔ name' = name ∧ m.eval u = .ok v := by
  rw [eval_eq_ok_iff]
  constructor
  · intro h
    exact ⟨h.name, h.value⟩
  · intro h
    exact ⟨h.1, h.2, Scopes.isEmpty_of_eval hu h.2, Scopes.isVar_of_eval h.2⟩

/-- All bindings are evaluated exactly if each of them is `PassedAs` another one. -/
theorem evalAll_eq_ok_iff (hbs : ∀ b ∈ bs, b.2.isEmpty = false) :
    m.evalAll bs = .ok vs ↔ List.Forall₂ m.PassedAs bs vs := by
  induction bs generalizing vs with
  | nil => simp [evalAll, eq_comm]
  | cons b bs ih =>
      obtain ⟨name, u⟩ := b
      rw [List.forall_mem_cons] at hbs
      rw [evalAll, List.forall₂_cons_left_iff]
      simp only [← ih hbs.2]
      cases hu : m.eval u with
      | error e => simp [passedAs_iff hbs.1, hu]
      | ok v =>
          cases hrest : m.evalAll bs with
          | error e => simp
          | ok rest => simp [passedAs_iff hbs.1, hu, eq_comm]

theorem stopsAt_cons_iff {b : String × Tagged} :
    m.StopsAt (b :: bs) e ↔
      m.Lacks b.2 e ∨ (∃ v, Scopes.eval m.scopes b.2 = .ok (some v)) ∧ m.StopsAt bs e := by
  constructor
  · intro h
    cases h with
    | @mk before after b' hbs hbefore hb =>
        cases before with
        | nil =>
            obtain ⟨rfl, rfl⟩ := List.cons.inj hbs
            exact .inl hb
        | cons first before =>
            obtain ⟨rfl, rfl⟩ := List.cons.inj hbs
            rw [List.forall_mem_cons] at hbefore
            exact .inr ⟨hbefore.1, .mk rfl hbefore.2 hb⟩
  · intro h
    rcases h with hb | ⟨hb, hbs, hbefore, hb'⟩
    · have hfirst : b :: bs = [] ++ b :: bs := rfl
      exact .mk hfirst (by simp) hb
    · exact .mk (congrArg (b :: ·) hbs) (List.forall_mem_cons.2 ⟨hb, hbefore⟩) hb'

/-- The first binding without a value decides how `evalAll` fails. -/
theorem evalAll_eq_error_iff : m.evalAll bs = .error e ↔ m.StopsAt bs e := by
  induction bs with
  | nil =>
      constructor
      · intro h
        cases h
      · intro h
        obtain ⟨hbs, -, -⟩ := h
        simp at hbs
  | cons b bs ih =>
      obtain ⟨name, u⟩ := b
      rw [evalAll, stopsAt_cons_iff, ← eval_eq_error_iff, ← ih]
      simp only [← eval_eq_ok_iff]
      cases m.eval u with
      | error e => simp
      | ok v => cases m.evalAll bs <;> simp

theorem names_of_forall₂ (h : List.Forall₂ m.PassedAs bs vs) : Assoc.names vs = Assoc.names bs := by
  induction h with
  | nil => rfl
  | cons hb _ ih => rw [Assoc.names_cons, Assoc.names_cons, hb.name, ih]

theorem isEmpty_of_forall₂ (h : List.Forall₂ m.PassedAs bs vs) :
    ∀ b ∈ vs, b.2.isEmpty = false := by
  induction h with
  | nil => simp
  | cons hb _ ih => exact List.forall_mem_cons.2 ⟨hb.nonempty, ih⟩

/-- The `actuals` of a call statement are its bindings, passed one by one, and none is left out.
-/
theorem actuals_eq_ok_iff {actuals : Store} :
    m.actuals s = .ok actuals ↔
      List.Forall₂ m.PassedAs s.args.bindings actuals.bindings := by
  rw [Memory.actuals]
  constructor
  · intro h
    cases hvs : m.evalAll s.args.bindings with
    | error e => simp [hvs, Except.map] at h
    | ok vs =>
        have hpassed := (evalAll_eq_ok_iff s.args.nonempty).1 hvs
        have hnodup : (Assoc.names vs).Nodup := by
          rw [names_of_forall₂ hpassed]
          exact s.args.nodup
        rw [hvs] at h
        cases h
        rwa [Store.bindings_ofList hnodup (isEmpty_of_forall₂ hpassed)]
  · intro h
    rw [(evalAll_eq_ok_iff s.args.nonempty).2 h]
    -- the bindings of a store make up that store
    exact congrArg Except.ok (Store.ext (Store.bindings_ofList actuals.nodup actuals.nonempty))

theorem actuals_eq_error_iff : m.actuals s = .error e ↔ m.StopsAt s.args.bindings e := by
  rw [← evalAll_eq_error_iff, actuals]
  cases m.evalAll s.args.bindings <;> simp [Except.map]

end Memory

/-! ### What encoders and functions find -/

/-- An argument is not encoded for where its references lead: `cyclic` or `dangling`. -/
def EncodeError.isReference : EncodeError → Bool
  | .cyclic _ _ | .dangling _ _ => true
  | .missing _ | .field _ _ _ | .size _ _ _ => false

section Encode

variable {actuals : Store} {u : Tagged} {e : EncodeError}

/-- An argument among `Resolved` actuals has the value that it is bound to. -/
theorem Param.value_of_resolved {p : Param} (hactuals : actuals.Resolved)
    (hu : actuals.get? p.name = some u) : p.value actuals = .ok u := by
  have hlookup : Scopes.lookup? [actuals] p.name = some u := by simp [Scopes.lookup?, hu]
  simp [value, hu, Scopes.resolve_of_lookup? hlookup (hactuals _ _ hu)]

theorem Param.isReference_of_lacks {p : Param} (hactuals : actuals.Resolved)
    (h : p.Lacks actuals e) : e.isReference = false := by
  have hvalue := value_eq_error_iff.2 h
  cases h with
  | cyclic hu hback => cases (value_of_resolved hactuals hu).symm.trans hvalue
  | dangling hu hends => cases (value_of_resolved hactuals hu).symm.trans hvalue
  | missing hu hdefault => rfl

/-- Among `Resolved` actuals, no argument is refused for where its references lead. -/
theorem Instruction.isReference_of_encode {i : Instruction} {frameSize : Option Int}
    (hactuals : actuals.Resolved) (h : i.encode frameSize actuals = .error (.error e)) :
    e.isReference = false := by
  generalize hf : Failure.error e = f at h
  cases encode_eq_error_iff.1 h with
  | argument hparams hbefore hp =>
      cases hp with
      | value hlacks =>
          cases hf
          exact Param.isReference_of_lacks hactuals hlacks
      | @field v f hv hmisfit =>
          cases f with
          | error e' =>
              cases hf
              rfl
          | unwritable => cases hf
  | size hparams hsize hne =>
      unfold Failure.showing at hf
      split at hf <;> cases hf
      rfl

end Encode

namespace Engine

variable {E : Engine} {c c' : Configuration} {p x : String} {u : Tagged}

theorem Steps.args_eq (h : E.Steps c c') : c'.activation.args = c.activation.args := by
  cases h with
  | next hs hstep => exact (derives_locals_of_step hs hstep).1

theorem args_of_path (h : ReflTransGen E.Steps c c') :
    c'.activation.args = c.activation.args := by
  induction h with
  | refl => rfl
  | tail _ hstep ih => exact hstep.args_eq.trans ih

/-- Wherever a call comes to, a name whose `walk` leads to an argument has its value, if that is
no reference. -/
theorem eval_of_path (h : ReflTransGen E.Steps c c') (hu : c.activation.args.get? p = some u)
    (hplain : u.isVar = false) {k : Nat}
    (hwalk : Scopes.walk (c'.activation.memory c'.world).scopes k x = some p) :
    (c'.activation.memory c'.world).eval (.reference x) = .ok u := by
  have hlookup : Scopes.lookup? (c'.activation.memory c'.world).scopes p = some u := by
    simp [Scopes.lookup?, Memory.scopes, Activation.memory, args_of_path h, hu]
  exact Memory.eval_eq_ok_iff.2 (Scopes.eval_reference_of_walk hwalk hlookup hplain)

/-- A call statement whose `actuals` fail is skipped, and nothing is looked up. -/
theorem step_of_actuals {call : String → Store → World → Option Outcome} {a : Activation}
    {s : Statement} {w : World} {e : BindingError}
    (hform : s.form = .callInstruction ∨ s.form = .callFunction)
    (h : (a.memory w).actuals s = .error e) : E.step call a s w = some (a.skip s.form e w) := by
  rcases hform with hform | hform <;> simp [step, hform, h]

/-- An instruction that a `callInstruction` names is not refused for where the references of its
arguments lead. -/
theorem isReference_of_stop {call : String → Store → World → Option Outcome} {a : Activation}
    {s : Statement} {w w' : World} {actuals : Store} {e : EncodeError}
    (hform : s.form = .callInstruction) (hactuals : (a.memory w).actuals s = .ok actuals)
    (h : E.step call a s w = some (.stop (.error (.encoding e)) w')) : e.isReference = false := by
  simp only [step, hform, hactuals, Option.some.injEq] at h
  obtain ⟨hresult, hworld, -⟩ := resume_eq_fault_iff.1 h
  obtain ⟨hraises, -⟩ := send_eq_fault_iff.1 (Prod.ext hresult hworld.symm)
  cases hraises with
  | encoding hi he =>
      exact Instruction.isReference_of_encode (Memory.resolved_of_actuals hactuals) he

/-- **Passing arguments.** A call statement passes all its arguments in their order, each under
its name and with the value of its expression, which is neither empty nor a reference
(`PassedAs`); or it is skipped for the first of them that has no value (`StopsAt`), whatever it
calls. So no instruction is refused for a reference of an argument, and wherever the called
function comes to, a name that is an argument or leads to one is read as the value that was
passed. -/
theorem arguments_passed (E : Engine) (depth : Int) (a : Activation) (w : World) {s : Statement}
    (hform : s.form = .callInstruction ∨ s.form = .callFunction) :
    (∃ actuals, (a.memory w).actuals s = .ok actuals ∧ actuals.names = s.args.names ∧
      List.Forall₂ (a.memory w).PassedAs s.args.bindings actuals.bindings ∧
      (s.form = .callInstruction → ∀ call e w',
        E.step call a s w = some (.stop (.error (.encoding e)) w') → e.isReference = false) ∧
      (s.form = .callFunction → ∀ f, E.entry (depth + 1) s.content w = .ok f →
        ∀ c, ReflTransGen E.Steps (.entered (depth + 1) s.content f actuals w) c →
        ∀ p u, actuals.get? p = some u →
          (c.activation.memory c.world).eval (.reference p) = .ok u ∧
          ∀ k x, Scopes.walk (c.activation.memory c.world).scopes k x = some p →
            (c.activation.memory c.world).eval (.reference x) = .ok u)) ∨
    ∃ e, (a.memory w).actuals s = .error e ∧ (a.memory w).StopsAt s.args.bindings e ∧
      ∀ (E' : Engine) call, E'.step call a s w = some (a.skip s.form e w) := by
  cases hactuals : (a.memory w).actuals s with
  | error e =>
      refine .inr ⟨e, rfl, Memory.actuals_eq_error_iff.1 hactuals, fun E' call => ?_⟩
      exact step_of_actuals hform hactuals
  | ok actuals =>
      have hpassed := Memory.actuals_eq_ok_iff.1 hactuals
      have hresolved := Memory.resolved_of_actuals hactuals
      refine .inl ⟨actuals, rfl, Memory.names_of_forall₂ hpassed, hpassed, ?_, ?_⟩
      · intro hform call e w' hstop
        exact isReference_of_stop hform hactuals hstop
      · intro _ f _ c hpath p u hu
        have hread : ∀ k x, Scopes.walk (c.activation.memory c.world).scopes k x = some p →
            (c.activation.memory c.world).eval (.reference x) = .ok u :=
          fun k x => eval_of_path hpath hu (hresolved p u hu)
        exact ⟨hread 0 p rfl, hread⟩

/-- A function that assigns to its argument `p`, and then refers to it. -/
def forgetful : Function :=
  .make "f" [] [.setVar "p" "=" ⟨"int", "9"⟩ "" ⟨"", ""⟩ "", .setLocal "y=var:p" ""] ""

/-- A call with a variable `x` that refers to another one, and one, `loop`, that refers to
itself. -/
def knotted : Activation where
  function := .make "main" [] [] ""
  args := {}
  locals := .ofList [("x", ⟨"var", "z"⟩), ("z", ⟨"int", "5"⟩), ("loop", ⟨"var", "loop"⟩)]

/-- A call statement whose arguments have values in `knotted`. -/
def withValues : Statement :=
  .callFunction "f" (.ofList [("q", ⟨"hex", "0A"⟩), ("p", ⟨"var", "x"⟩)]) ""

/-- A call statement of whose arguments `b` is not defined and `c` is cyclic. -/
def withoutValues : Statement :=
  .callInstruction "f" (.ofList [("a", ⟨"int", "1"⟩), ("b", ⟨"var", "ghost"⟩),
    ("c", ⟨"var", "loop"⟩)]) ""

theorem arguments_passed_forgetful :
    (∃ actuals c, (knotted.memory ⟨{}, #[]⟩).actuals withValues = .ok actuals ∧
      actuals = .ofList [("q", ⟨"hex", "0A"⟩), ("p", ⟨"int", "5"⟩)] ∧
      ReflTransGen (Steps { functions := [("f", forgetful)] })
        (.entered 1 "f" forgetful actuals ⟨{}, #[]⟩) c ∧
      c.activation.locals.get? "p" = some ⟨"int", "9"⟩ ∧
      (c.activation.memory c.world).eval (.reference "p") = .ok ⟨"int", "5"⟩ ∧
      (c.activation.memory c.world).eval (.reference "y") = .ok ⟨"int", "5"⟩) ∧
    ∀ (E : Engine) call, E.step call knotted withoutValues ⟨{}, #[]⟩ =
      some (knotted.skip .callInstruction (.undefined "ghost") ⟨{}, #[]⟩) := by
  constructor
  · have hactuals : (knotted.memory ⟨{}, #[]⟩).actuals withValues =
        .ok (.ofList [("q", ⟨"hex", "0A"⟩), ("p", ⟨"int", "5"⟩)]) := by
      decide +kernel
    -- the function has executed both its statements
    obtain ⟨c, hpath, hlocal, hwalk⟩ : ∃ c, ReflTransGen (Steps { functions := [("f", forgetful)] })
        (.entered 1 "f" forgetful (.ofList [("q", ⟨"hex", "0A"⟩), ("p", ⟨"int", "5"⟩)])
          ⟨{}, #[]⟩) c ∧
        c.activation.locals.get? "p" = some ⟨"int", "9"⟩ ∧
        Scopes.walk (c.activation.memory c.world).scopes 1 "y" = some "p" :=
      ⟨_, .head (@Steps.next _ _ _ _ _ _ _ 0 rfl rfl)
        (.single (@Steps.next _ _ _ _ _ _ _ 0 rfl rfl)), rfl, rfl⟩
    rcases arguments_passed { functions := [("f", forgetful)] } 0 knotted ⟨{}, #[]⟩
      (s := withValues) (.inr rfl) with ⟨actuals, hok, -, -, -, hread⟩ | ⟨e, herror, -⟩
    · cases hactuals.symm.trans hok
      obtain ⟨hp, hy⟩ := hread rfl forgetful rfl c hpath "p" ⟨"int", "5"⟩ rfl
      exact ⟨_, c, hactuals, rfl, hpath, hlocal, hp, hy 1 "y" hwalk⟩
    · cases hactuals.symm.trans herror
  · have hactuals : (knotted.memory ⟨{}, #[]⟩).actuals withoutValues =
        .error (.undefined "ghost") := by
      decide +kernel
    rcases arguments_passed {} 0 knotted ⟨{}, #[]⟩ (s := withoutValues) (.inl rfl)
      with ⟨actuals, hok, -⟩ | ⟨e, herror, -, hskip⟩
    · cases hactuals.symm.trans hok
    · cases hactuals.symm.trans herror
      exact hskip

end Engine

end BusScript
