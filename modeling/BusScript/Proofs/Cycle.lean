import BusScript.Proofs.FailStop
import BusScript.Proofs.Provenance

/-!
# Cycles

A reference that leads back to itself is an error wherever an expression is
evaluated: in the operands of an assignment, the arguments of a call, the count
of a loop, a returned value or the arguments of an instruction. `Meets` lists
these places. Each of them fails for a cycle only if some look-up in its scopes
does (`Memory.cyclic_of_setVar`, `Instruction.cyclic_of_encode`), and no look-up
in resolved stores does, because there is nothing to follow.

A run that starts without references, of a program that declares none, has only
such stores. `Command.references_traced` says so, and more generally where the
references of a run come from.
-/

namespace BusScript

/-- The value of some expression is sought on a path of references that comes back to itself:
`eval` fails for `cycle`. -/
def Scopes.Cyclic (scopes : Scopes) (cycle : Cycle) : Prop := ∃ v, eval scopes v = .error cycle

/-- In stores that are `Resolved` there is no path of references at all. -/
theorem Scopes.not_cyclic_of_resolved {scopes : Scopes} {cycle : Cycle}
    (h : ∀ s ∈ scopes, s.Resolved) : ¬ scopes.Cyclic cycle := by
  rintro ⟨v, hv⟩
  unfold eval at hv
  split at hv
  · cases hlookup : lookup? scopes v.payload with
    | none =>
        rw [resolve_of_lookup?_eq_none hlookup] at hv
        cases hv
    | some u =>
        obtain ⟨s, hs, hget⟩ := List.exists_of_findSome?_eq_some hlookup
        rw [resolve_of_lookup? hlookup (h s hs _ u hget)] at hv
        cases hv
  · cases hv

namespace Engine

/-- The statement of a configuration comes upon `cycle`: in its arguments, in what it returns or
computes, or in what it sends. -/
inductive Meets (E : Engine) (c : Configuration) (cycle : Cycle) : Prop
  | actuals {s : Statement} (hs : c.activation.current? = some s)
      (h : (c.activation.memory c.world).actuals s = .error (.cyclic cycle)) : Meets E c cycle
  | count {s : Statement} (hs : c.activation.current? = some s)
      (h : Activation.loopCount (c.activation.memory c.world) s =
        .error (.binding (.cyclic cycle))) : Meets E c cycle
  | ret {s : Statement} (hs : c.activation.current? = some s)
      (h : Scopes.eval (c.activation.memory c.world).scopes (.parse s.content) = .error cycle) :
      Meets E c cycle
  | assign {s : Statement} (hs : c.activation.current? = some s)
      (h : (c.activation.memory c.world).setVar s = .error (.error (.cyclic cycle))) :
      Meets E c cycle
  | send {name arg : String} {actuals : Store} (hsends : Sends c name actuals)
      (h : E.SendRaises name actuals (.encoding (.cyclic arg cycle))) : Meets E c cycle

end Engine

namespace Memory

variable {m : Memory} {s : Statement} {name : String} {cycle : Cycle}

theorem cyclic_of_eval {v : Tagged} (h : m.eval v = .error (.cyclic cycle)) :
    m.scopes.Cyclic cycle := by
  unfold eval at h
  split at h
  · rename_i heval
    cases h
    exact ⟨v, heval⟩
  · cases h
  · cases h

theorem cyclic_of_arg (h : m.arg s name = .error (.cyclic cycle)) : m.scopes.Cyclic cycle := by
  unfold arg at h
  split at h
  · cases h
  · exact cyclic_of_eval h

theorem cyclic_of_evalAll {bs : List (String × Tagged)}
    (h : m.evalAll bs = .error (.cyclic cycle)) : m.scopes.Cyclic cycle := by
  induction bs with
  | nil => cases h
  | cons b bs ih =>
      rw [evalAll] at h
      split at h
      · rename_i heval
        cases h
        exact cyclic_of_eval heval
      · split at h
        · rename_i hrest
          cases h
          exact ih hrest
        · cases h

theorem cyclic_of_actuals (h : m.actuals s = .error (.cyclic cycle)) : m.scopes.Cyclic cycle := by
  unfold actuals at h
  cases hvs : m.evalAll s.args.bindings with
  | error e => rw [hvs] at h; cases h; exact cyclic_of_evalAll hvs
  | ok vs => rw [hvs] at h; cases h

/-- A `loop` meets a cycle only where it evaluates its count. -/
theorem cyclic_of_loopCount
    (h : Activation.loopCount m s = .error (.binding (.cyclic cycle))) :
    m.scopes.Cyclic cycle := by
  unfold Activation.loopCount at h
  split at h
  · rename_i harg
    cases h
    exact cyclic_of_arg harg
  · rename_i v _
    cases hparse : Numeral.parse v.payload <;> rw [hparse] at h <;> cases h

/-- What an operator fails for is no `cyclic` error. -/
theorem mapError_operator_ne {r : Except (Failure OperatorError) Tagged} :
    r.mapError (·.map BindingError.operator) ≠ .error (.error (.cyclic cycle)) := by
  cases r with
  | ok v => nofun
  | error f => cases f <;> nofun

theorem cyclic_of_combine {op : Operator} {held v : Tagged}
    (h : m.combine op held v = .error (.error (.cyclic cycle))) : m.scopes.Cyclic cycle := by
  unfold combine at h
  split at h
  · rename_i heval
    cases h
    exact cyclic_of_eval heval
  · exact absurd h mapError_operator_ne

theorem cyclic_of_assign {sign : String} {v : Tagged}
    (h : m.assign name sign v = .error (.error (.cyclic cycle))) : m.scopes.Cyclic cycle := by
  -- only a compound assignment evaluates anything: what the variable holds
  have hmap : ∀ {op held} {k : Tagged → Memory},
      (m.combine op held v).map k = .error (.error (.cyclic cycle)) → m.scopes.Cyclic cycle := by
    intro op held k hk
    cases hcombine : m.combine op held v with
    | error f => rw [hcombine] at hk; cases hk; exact cyclic_of_combine hcombine
    | ok v' => rw [hcombine] at hk; cases hk
  unfold assign compound at h
  split at h
  · cases h
  · cases h
  · split at h
    · exact hmap h
    · split at h
      · exact hmap h
      · cases h
  · cases h

theorem cyclic_of_rightSide {first : Tagged}
    (h : m.rightSide s first = .error (.error (.cyclic cycle))) : m.scopes.Cyclic cycle := by
  unfold rightSide at h
  split at h
  · split at h
    · rename_i harg
      cases h
      exact cyclic_of_arg harg
    · split at h
      · rename_i harg
        cases h
        exact cyclic_of_arg harg
      · exact absurd h mapError_operator_ne
  · cases h
  · cases h

/-- A `setVar` meets a cycle only where it evaluates an expression. -/
theorem cyclic_of_setVar (h : m.setVar s = .error (.error (.cyclic cycle))) :
    m.scopes.Cyclic cycle := by
  unfold setVar target at h
  cases hv : s.args.get? Statement.targetArg with
  | none => simp [hv] at h
  | some v =>
      simp only [hv] at h
      by_cases hempty : v.payload = ""
      · simp [hempty] at h
      · rw [if_neg hempty] at h
        dsimp only at h
        split at h
        · rename_i harg
          cases h
          exact cyclic_of_arg harg
        · split at h
          · rename_i harg
            cases h
            exact cyclic_of_arg harg
          · split at h
            · rename_i hright
              cases h
              exact cyclic_of_rightSide hright
            · exact cyclic_of_assign h

end Memory

/-- The encoder fails with `cyclic` only where it resolves an argument among the `actuals`. -/
theorem Instruction.cyclic_of_encode {i : Instruction} {frameSize : Option Int} {actuals : Store}
    {arg : String} {cycle : Cycle}
    (h : i.encode frameSize actuals = .error (.error (.cyclic arg cycle))) :
    Scopes.Cyclic [actuals] cycle := by
  unfold encode at h
  cases hdata : encodeParams i.name actuals i.params with
  | ok data =>
      simp only [hdata] at h
      split at h
      · cases h
      · split at h
        · cases h
        · unfold Failure.showing at h
          split at h <;> cases h
  | error f =>
      rw [hdata] at h
      cases h
      obtain ⟨-, p, -, -, -, -, hp⟩ := encodeParams_eq_error_iff.1 hdata
      unfold Param.encode at hp
      cases hvalue : p.value actuals with
      | ok v =>
          simp only [hvalue] at hp
          split at hp
          · rename_i e _
            cases e <;> cases hp
          · cases hp
      | error e =>
          rw [hvalue] at hp
          cases hp
          unfold Param.value at hvalue
          split at hvalue
          · split at hvalue
            · rename_i hresolve
              cases hvalue
              exact ⟨.reference p.name, hresolve⟩
            · cases hvalue
            · cases hvalue
          · split at hvalue <;> cases hvalue

namespace Engine

variable {E : Engine} {c : Configuration} {cycle : Cycle}

theorem cyclic_of_sendRaises {name arg : String} {actuals : Store}
    (h : E.SendRaises name actuals (.encoding (.cyclic arg cycle))) :
    Scopes.Cyclic [actuals] cycle := by
  cases h with
  | encoding hi he => exact Instruction.cyclic_of_encode he

/-- The `args`, `locals` and `globals` of a configuration bind no name to a reference. -/
structure Resolved (c : Configuration) : Prop where
  args : c.activation.args.Resolved
  locals : c.activation.locals.Resolved
  globals : c.world.globals.Resolved

/-- No look-up at a configuration comes back to itself: neither one of its statement, nor one
among the `actuals` of an instruction that it calls. -/
structure CycleFree (c : Configuration) : Prop where
  scopes : ∀ cycle, ¬ (c.activation.memory c.world).scopes.Cyclic cycle
  actuals : ∀ {name : String} {actuals : Store} (cycle : Cycle), Sends c name actuals →
    ¬ Scopes.Cyclic [actuals] cycle

/-- Where all stores are `Resolved`, so are the arguments of an instruction, which are
evaluated. -/
theorem Resolved.cycleFree (hc : Resolved c) : CycleFree c where
  scopes := by
    intro cycle
    apply Scopes.not_cyclic_of_resolved
    simpa [Memory.scopes] using ⟨hc.args, hc.locals, hc.globals⟩
  actuals := by
    intro name actuals cycle hsends
    cases hsends with
    | intro hs hform hactuals =>
        apply Scopes.not_cyclic_of_resolved
        simpa using Memory.resolved_of_actuals hactuals

/-- A statement of a `CycleFree` configuration meets no cycle, whatever it does. -/
theorem CycleFree.not_meets (hc : CycleFree c) : ¬ E.Meets c cycle := by
  intro h
  cases h with
  | actuals hs h => exact hc.scopes cycle (Memory.cyclic_of_actuals h)
  | count hs h => exact hc.scopes cycle (Memory.cyclic_of_loopCount h)
  | ret hs h => exact hc.scopes cycle ⟨_, h⟩
  | assign hs h => exact hc.scopes cycle (Memory.cyclic_of_setVar h)
  | send hsends h => exact hc.actuals cycle hsends (cyclic_of_sendRaises h)

/-- A fault that is a cycle was met by the statement that `Raises` it. -/
theorem Raises.meets {arg : String} (h : E.Raises c (.encoding (.cyclic arg cycle))) :
    E.Meets c cycle := by
  cases h with
  | send hsends hr => exact .send hsends hr
  | entry hs hform hactuals hr => cases hr

end Engine

/-! ### Commands -/

/-- A command runs the function `f` on `args`: one that is registered, or one that it brings
along. -/
inductive Command.Runs (E : Engine) : Command → Function → Store → Prop
  | call {name : String} {args : Store} {depth : Int} {f : Function}
      (hf : E.findFunction? name = some f) : Runs E (.call name args depth) f args
  | execute {f : Function} {args : Store} {depth : Int} : Runs E (.execute f args depth) f args

namespace Command

variable {E : Engine} {command : Command} {f : Function} {args : Store} {w u : World}
  {fuel : Nat} {reply : Reply} {E' : Engine}

/-- All that a command visits is `Traced` to the function that it runs. -/
theorem traced_of_visits (hruns : command.Runs E f args) {c : Configuration}
    (h : command.Visits E w c) : E.Traced f ⟨0, .start f args, w⟩ c := by
  cases h with
  | @call name _ depth g _ hentry hvisit =>
      cases hruns with
      | call hf =>
          have hfg : some f = some g := hf.symm.trans (Engine.entry_eq_ok_iff.1 hentry).1
          cases hfg
          have hfirst : E.Traced f ⟨0, .start f args, w⟩ (.entered depth name f args w) :=
            ⟨.refl _, .refl _, .erase _ _⟩
          exact hfirst.trans (Engine.traced_of_visits hvisit)
  | @execute _ _ depth _ hvisit =>
      cases hruns
      have hfirst : E.Traced f ⟨0, .start f args, w⟩ ⟨depth, .start f args, w.forgetReturn⟩ :=
        ⟨.refl _, .refl _, .erase _ _⟩
      exact hfirst.trans (Engine.traced_of_visits hvisit)

/-- The global variables that a command leaves are derived from those before it by what its
function `MayRefer` to. -/
theorem derives_of_act (hruns : command.Runs E f args)
    (h : Session.act fuel E w command = some (reply, E', u)) :
    Store.Derives (E.MayRefer .setGlobal f) w.globals u.globals := by
  cases hruns with
  | @call name _ depth _ hf =>
      obtain ⟨o, ho, hsome⟩ := Option.map_eq_some_iff.1 h
      cases hsome
      rw [Engine.call_eq] at ho
      cases hentry : E.entry depth name w with
      | error o' =>
          rw [hentry] at ho
          cases ho
          rw [Engine.globals_of_entry hentry]
          exact .refl _
      | ok g =>
          have hfg : some f = some g := hf.symm.trans (Engine.entry_eq_ok_iff.1 hentry).1
          cases hfg
          rw [hentry] at ho
          exact (Store.Derives.erase _ _).trans (Engine.derives_of_run ho)
  | execute =>
      obtain ⟨o, ho, hsome⟩ := Option.map_eq_some_iff.1 h
      cases hsome
      exact (Store.Derives.erase _ _).trans (Engine.derives_of_run ho)

/-- A command that fails with `cyclic` has come to a statement that met the cycle. -/
theorem meets_of_act (hruns : command.Runs E f args) {arg : String} {cycle : Cycle}
    (h : Session.act fuel E w command =
      some (.failed (.error (.encoding (.cyclic arg cycle))), E', u)) :
    ∃ c, command.Visits E w c ∧ E.Meets c cycle := by
  have hresult : ∀ {o : Outcome},
      Reply.ofOutcome o = .failed (.error (.encoding (.cyclic arg cycle))) →
        o = ⟨.error (.error (.encoding (.cyclic arg cycle))), o.world⟩ := by
    rintro ⟨r, w'⟩ hreply
    cases r <;> cases hreply
    rfl
  cases hruns with
  | @call name _ depth _ hf =>
      obtain ⟨o, ho, hsome⟩ := Option.map_eq_some_iff.1 h
      rw [hresult (Prod.mk.inj hsome).1, Engine.call_eq] at ho
      cases hentry : E.entry depth name w with
      | error o' =>
          rw [hentry] at ho
          cases ho
          cases (Engine.entry_eq_fault_iff.1 hentry).1
      | ok g =>
          rw [hentry] at ho
          obtain ⟨c, hvisit, hr, -⟩ := Engine.exists_raises_of_run ho
          exact ⟨c, .call hentry hvisit, hr.meets⟩
  | execute =>
      obtain ⟨o, ho, hsome⟩ := Option.map_eq_some_iff.1 h
      rw [hresult (Prod.mk.inj hsome).1] at ho
      obtain ⟨c, hvisit, hr, -⟩ := Engine.exists_raises_of_run ho
      exact ⟨c, .execute hvisit, hr.meets⟩

/-- **References come from the program or were there before.** Whatever a command runs and
however that ends, the global variables refer to nothing but what they referred to before and
what a reachable statement declares (`MayRefer`): assignments, returns and calls store resolved
values only. Hence a run that starts with `Resolved` variables, of a program that declares no
references, never has one in any store, and never `Meets` a cycle. -/
theorem references_traced (hruns : command.Runs E f args) (w : World) :
    (∀ fuel reply E' u, Session.act fuel E w command = some (reply, E', u) →
      Store.Derives (E.MayRefer .setGlobal f) w.globals u.globals) ∧
    (∀ c, command.Visits E w c →
      Store.Derives (E.MayRefer .setGlobal f) w.globals c.world.globals) ∧
    (∀ (m : Memory) s m', m.setVar s = .ok m' → ∃ x v, v.isVar = false ∧
      (m' = m.setLocal x v ∨ m' = m.setGlobal x v)) ∧
    (∀ (a : Activation) s u, ∃ a' u', a.ret s u = .next a' u' ∧
      a'.args = a.args ∧ a'.locals = a.locals ∧
      ((a'.result = a.result ∧ u'.globals = u.globals) ∨
        ∃ v, v.isVar = false ∧ a'.result = some v ∧ u'.globals = u.globals.set returnName v)) ∧
    (∀ (m : Memory) s actuals, m.actuals s = .ok actuals → actuals.Resolved) ∧
    (w.globals.Resolved → args.Resolved →
      (∀ x y, ¬ E.MayRefer .setLocal f x y) → (∀ x y, ¬ E.MayRefer .setGlobal f x y) →
      (∀ c, command.Visits E w c →
        Engine.Resolved c ∧ Engine.CycleFree c ∧ ∀ cycle, ¬ E.Meets c cycle) ∧
      ∀ fuel reply E' u, Session.act fuel E w command = some (reply, E', u) →
        u.globals.Resolved ∧
          ∀ arg cycle, reply ≠ .failed (.error (.encoding (.cyclic arg cycle)))) := by
  refine ⟨?_, ?_, ?_, ?_, ?_, ?_⟩
  · intro fuel reply E' u h
    exact derives_of_act hruns h
  · intro c hvisit
    exact (traced_of_visits hruns hvisit).globals
  · intro m s m' h
    obtain ⟨v, v', -, hv', hm'⟩ := Memory.setVar_eq_ok h
    exact ⟨v.payload, v', hv', hm'⟩
  · intro a s u
    exact a.ret_cases s u
  · intro m s actuals h
    exact Memory.resolved_of_actuals h
  · intro hglobals hargs hlocal hglobal
    have hresolved : ∀ c, command.Visits E w c → Engine.Resolved c := by
      intro c hvisit
      have htraced := traced_of_visits hruns hvisit
      exact ⟨htraced.args.resolved (fun _ _ => id) hargs, htraced.locals.resolved hlocal hargs,
        htraced.globals.resolved hglobal hglobals⟩
    refine ⟨?_, ?_⟩
    · intro c hvisit
      have hfree := (hresolved c hvisit).cycleFree
      exact ⟨hresolved c hvisit, hfree, fun cycle => hfree.not_meets⟩
    · intro fuel reply E' u h
      refine ⟨(derives_of_act hruns h).resolved hglobal hglobals, ?_⟩
      rintro arg cycle rfl
      obtain ⟨c, hvisit, hmeets⟩ := meets_of_act hruns h
      exact (hresolved c hvisit).cycleFree.not_meets hmeets

end Command

namespace Engine

/-- A function that adds the global `n` to the local `k`, and has the function `g` return the
sum. -/
def adder : Function :=
  .make "f" [] [.setLocal "k=int:2" "", .setVar "k" "+=" ⟨"var", "n"⟩ "" ⟨"", ""⟩ "",
    .callFunction "g" (.ofList [("x", ⟨"var", "k"⟩)]) "", .ret "var:$return" ""] ""

/-- A program of `adder` and the function `g`, which declares no references. -/
def summing : Engine where
  functions := [("f", adder), ("g", .make "g" [] [.ret "var:x" ""] "")]

/-- A function that declares the reference `alias` and then follows it. -/
def linking : Function :=
  .make "link" [] [.setGlobal "alias=var:n" "", .setVar "copy" ":=" ⟨"var", "alias"⟩ "" ⟨"", ""⟩ ""]
    ""

theorem not_mayRefer_summing {form : Form} {name : String} {f : Function} {x y : String}
    (hf : summing.findFunction? name = some f) : ¬ summing.MayRefer form f x y := by
  rintro ⟨g, hfg, s, hs, -, hdeclares⟩
  have hg : ∃ name, summing.findFunction? name = some g := by
    induction hfg with
    | refl => exact ⟨name, hf⟩
    | tail _ hcall _ =>
        obtain ⟨s', -, -, hg⟩ := hcall
        exact ⟨s'.content, hg⟩
  obtain ⟨name', hg⟩ := hg
  have hall : ∀ b ∈ summing.functions, ∀ s ∈ b.2.body,
      (Memory.parseBinding s.content).toOption.all (!·.2.isVar) = true := by
    decide +kernel
  have hplain := hall _ (Assoc.mem_of_lookup hg) s hs
  rw [Statement.declares_iff.1 hdeclares] at hplain
  cases hplain

end Engine

namespace Command

theorem references_traced_summing :
    (∃ reply E' u, Session.act 9 .summing ⟨.ofList [("n", ⟨"int", "4"⟩)], #[]⟩
        (.execute Engine.linking {} 0) = some (reply, E', u) ∧
      u.globals = .ofList [("n", ⟨"int", "4"⟩), ("alias", ⟨"var", "n"⟩), ("copy", ⟨"int", "4"⟩)] ∧
      Store.Derives (Engine.summing.MayRefer .setGlobal Engine.linking)
        (.ofList [("n", ⟨"int", "4"⟩)]) u.globals) ∧
    ∀ c, (Command.call "f" {} 0).Visits .summing ⟨.ofList [("n", ⟨"int", "4"⟩)], #[]⟩ c →
      Engine.Resolved c ∧ Engine.CycleFree c ∧ ∀ cycle, ¬ Engine.summing.Meets c cycle := by
  constructor
  · have hrun : (Session.act 9 .summing ⟨.ofList [("n", ⟨"int", "4"⟩)], #[]⟩
        (.execute Engine.linking {} 0)).map (·.2.2.globals) = some
          (.ofList [("n", ⟨"int", "4"⟩), ("alias", ⟨"var", "n"⟩), ("copy", ⟨"int", "4"⟩)]) := by
      decide +kernel
    obtain ⟨⟨reply, E', u⟩, hact, hglobals⟩ := Option.map_eq_some_iff.1 hrun
    exact ⟨reply, E', u, hact, hglobals, (references_traced .execute _).1 9 reply E' u hact⟩
  · have hf : Engine.summing.findFunction? "f" = some Engine.adder := rfl
    have hruns : (Command.call "f" {} 0).Runs .summing Engine.adder {} := .call hf
    have hplain := (references_traced hruns ⟨.ofList [("n", ⟨"int", "4"⟩)], #[]⟩).2.2.2.2.2
      (Store.resolved_ofList (by decide)) Store.resolved_empty
      (fun x y => Engine.not_mayRefer_summing hf) (fun x y => Engine.not_mayRefer_summing hf)
    exact hplain.1

end Command

end BusScript
