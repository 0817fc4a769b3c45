import BusScript.Proofs.Handler

/-!
# Statements that raise

Only the loop around the handlers catches a `BindingError`: it logs the error
and goes on with the following statement.

A handler performs the step of its statement, and it has changed nothing when
it raises a `BindingError` (`performs_ofStatement`). So calls that are executed
by handlers are the calls of the machine (`raisingRun_eq`), each `BindingError`
is caught where it was raised, and none comes out of a call, at any depth.
-/

namespace BusScript

/-! ### The loop around the handlers -/

/-- Where a call goes on after a handler. A `BindingError` is caught here. -/
def Handler.turn (form : Form) : Except Raised (Option Nat) × Activation × World → Turn
  | (.ok target, a, w) => .next (a.goto (target.getD (a.pos + 1))) w
  | (.error (.binding e), a, w) => .next a.advance (w.log .error (a.describe form e.message))
  | (.error (.failure f), _, w) => .stop f w

/-- A handler leads to the turn of a step, and has changed nothing when it
raises a `BindingError`. -/
structure Handler.Performs (form : Form) (h : Handler (Option Nat)) (a : Activation) (w : World)
    (t? : Option Turn) : Prop where
  turn : (h.exec a w).map (Handler.turn form) = t?
  kept : ∀ {e : BindingError} {a' : Activation} {w' : World},
    h.exec a w = some (.error (.binding e), a', w') → a' = a ∧ w' = w

namespace Handler

variable {a : Activation} {w : World} {form : Form}

/-- A handler that raises no `BindingError` performs the turn that `Handler.turn` makes of its
end. -/
theorem performs_of_exec {h : Handler (Option Nat)}
    {r : Except Raised (Option Nat)} {a' : Activation} {w' : World} {t : Turn}
    (hr : exec h a w = some (r, a', w')) (hb : ∀ e, r ≠ .error (.binding e))
    (ht : turn form (r, a', w') = t) : Performs form h a w (some t) where
  turn := by rw [hr, Option.map_some, ht]
  kept := by
    intro e b u he
    rw [hr] at he
    cases he
    exact absurd rfl (hb e)

/-- A handler that raises a `BindingError` and has changed nothing performs `Activation.skip`.
-/
theorem performs_of_raises {h : Handler (Option Nat)} {e : BindingError}
    (hr : exec h a w = some (.error (.binding e), a, w)) :
    Performs form h a w (some (a.skip form e w)) where
  turn := by
    rw [hr]
    rfl
  kept := by
    intro e' a' w' he
    rw [hr] at he
    cases he
    exact ⟨rfl, rfl⟩

/-- A handler that ends as `assigned` performs `Activation.commit`. -/
theorem performs_of_assigned {h : Handler Unit} {m? : Except (Failure BindingError) Memory}
    (hr : exec h a w = some (assigned a w m?)) :
    Performs form (do h; return none) a w (some (a.commit form w m?)) := by
  have hexec : exec (do h; return none : Handler (Option Nat)) a w =
      some ((assigned a w m?).1.map fun _ => none, (assigned a w m?).2) := by
    rw [exec_bind, hr]
    cases m? <;> rfl
  cases m? with
  | ok m => exact performs_of_exec hexec (fun _ => nofun) rfl
  | error f =>
      cases f with
      | error e => exact performs_of_raises hexec
      | unwritable => exact performs_of_exec hexec (fun _ => nofun) rfl

/-- A call statement, once its arguments are bound, performs `Engine.resume` after what was
called. -/
theorem performs_of_tolerated {α : Type} (E : Engine) {s : Statement} {h : Store → Handler Unit}
    {actuals : Store} {r : Except (Failure Fault) α} {w' : World}
    (hm : (a.memory w).actuals s = .ok actuals)
    (hr : exec (h actuals) a w = some (tolerated E r, a, w')) :
    Performs form (do h (← Handler.actuals s); return none) a w (some (E.resume a r w')) := by
  have hexec : exec (do h (← Handler.actuals s); return none : Handler (Option Nat)) a w =
      some ((tolerated E r).map fun _ => none, a, w') := by
    rw [exec_bind_of_reads (exec_actuals s), hm, mapError_ok, andThen_ok, exec_bind, hr]
    cases tolerated E r <;> rfl
  cases r with
  | ok v => exact performs_of_exec hexec (fun _ => nofun) rfl
  | error f =>
      unfold tolerated at hexec
      unfold Engine.resume
      cases hf : E.tolerates f <;> simp only [hf, if_true, Bool.false_eq_true, if_false] at hexec ⊢
      · exact performs_of_exec hexec (fun _ => nofun) rfl
      · exact performs_of_exec hexec (fun _ => nofun) rfl

/-- A call statement whose arguments fail is skipped before anything is called. -/
theorem performs_actuals_error {s : Statement} {h : Store → Handler (Option Nat)}
    {e : BindingError} (hm : (a.memory w).actuals s = .error e) :
    Performs form (actuals s >>= h) a w (some (a.skip form e w)) := by
  refine performs_of_raises ?_
  rw [exec_bind_of_reads (exec_actuals s), hm]
  rfl

/-! ### Handlers and steps -/

theorem Performs.congr {h h' : Handler (Option Nat)} {t? : Option Turn}
    (hh : exec h a w = exec h' a w) (hp : Performs form h' a w t?) : Performs form h a w t? where
  turn := by rw [hh, hp.turn]
  kept := by
    intro e a' w' he
    rw [hh] at he
    exact hp.kept he

/-- A handler ends without raising, and the call goes on from the state `a'` in the world `w'`.
-/
def GoesOn (h : Handler (Option Nat)) (a : Activation) (w : World) (a' : Activation)
    (w' : World) : Prop :=
  ∃ target b, exec h a w = some (.ok target, b, w') ∧ b.goto (target.getD (b.pos + 1)) = a'

theorem GoesOn.performs {h : Handler (Option Nat)} {a' : Activation} {w' : World}
    (hg : GoesOn h a w a' w') : Performs form h a w (some (.next a' w')) := by
  obtain ⟨target, b, hexec, rfl⟩ := hg
  exact performs_of_exec hexec (fun _ => nofun) rfl

/-- The handler `pass`, which writes counters in place, goes on as `Activation.pass` does. -/
theorem goesOn_pass (index : LoopIndex) (c : Counter) :
    GoesOn (pass index c) a w (a.pass index c) w := by
  unfold GoesOn pass Activation.pass
  rw [exec_bind_of_reads exec_activation, andThen_ok]
  dsimp only
  by_cases hc : c.started < c.count
  · rw [if_pos hc, if_pos hc, exec_bind, exec_setLoops]
    exact ⟨none, _, rfl, rfl⟩
  · rw [if_neg hc, if_neg hc, exec_bind, exec_setLoops]
    exact ⟨some _, _, rfl, rfl⟩

theorem goesOn_start (index : LoopIndex) {n : Int} (hw : Numeral.writable n = true) :
    GoesOn (start index (.ok n)) a w (a.pass index ⟨0, n⟩) w := by
  -- the pass finds the counter that was just set, and drops it
  let b : Activation := { a with loops := (a.pos, ⟨0, n⟩) :: a.loops }
  have hb : b.pass index ⟨0, n⟩ = a.pass index ⟨0, n⟩ := by simp [b, Activation.pass]
  have hpass : GoesOn (pass index ⟨0, n⟩) b w (a.pass index ⟨0, n⟩) w := hb ▸ goesOn_pass index _
  have hexec : exec (start index (.ok n)) a w = exec (pass index ⟨0, n⟩) b w := by
    rw [start, exec_bind_of_reads exec_activation, andThen_ok, if_pos hw, exec_bind, exec_setLoops]
    rfl
  unfold GoesOn
  rw [hexec]
  exact hpass

/-- A handler that begins with `loopIndex` performs `Activation.withIndex`, if it performs `go`
behind it. -/
theorem performs_of_index {k : LoopIndex → Handler (Option Nat)} {go : LoopIndex → Turn}
    (hk : ∀ index, Performs form (k index) a w (some (go index))) :
    Performs form (loopIndex >>= k) a w (some (a.withIndex w go)) := by
  have hexec := exec_bind (a := a) (w := w) loopIndex k
  rw [exec_loopIndex] at hexec
  unfold Activation.withIndex
  cases hi : a.function.loopIndex with
  | error e =>
      rw [hi] at hexec
      exact performs_of_exec hexec (fun _ => nofun) rfl
  | ok index =>
      rw [hi] at hexec
      exact (hk index).congr hexec

/-- The handler `loop`, which catches the errors of its count, performs `Activation.loop`. -/
theorem performs_loop (s : Statement) :
    Performs .loop (loop s) a w (some (a.withIndex w (a.loop s w))) := by
  refine performs_of_index fun index => ?_
  rw [Activation.loop]
  cases hc : a.loops.lookup a.pos with
  | some c =>
      refine .congr ?_ (goesOn_pass index c).performs
      rw [exec_bind_of_reads exec_activation, andThen_ok, hc]
  | none =>
      -- the loop is entered: reading its number of passes changes nothing
      have hexec := exec_bind_of_reads (exec_readCount (a := a) (w := w) s) (start index)
      refine .congr (Eq.trans ?_ hexec) ?_
      · rw [exec_bind_of_reads exec_activation, andThen_ok, hc]
      cases Activation.loopCount (a.memory w) s with
      | error e => exact GoesOn.performs ⟨some (index.partner a.pos + 1), a, rfl, rfl⟩
      | ok n =>
          dsimp only
          by_cases hw : Numeral.writable n = true
          · rw [if_pos hw]
            exact (goesOn_start index hw).performs
          · have hstart : exec (start index (.ok n)) a w =
                some (.error (.failure .unwritable), a, w) := by
              rw [start, exec_bind_of_reads exec_activation, andThen_ok, if_neg hw]
              rfl
            rw [if_neg hw]
            exact performs_of_exec hstart (fun _ => nofun) rfl

theorem performs_endLoop :
    Performs .endLoop endLoop a w
      (some (a.withIndex w fun index => .next (a.goto (index.partner a.pos)) w)) := by
  refine performs_of_index fun index => ?_
  exact GoesOn.performs ⟨_, _, exec_bind_of_reads exec_activation _, rfl⟩

/-- The handler `ret`, which catches the errors of its expression, performs `Activation.ret`. -/
theorem performs_ret (s : Statement) : Performs .ret (ret s) a w (some (a.ret s w)) := by
  have hread : exec (readReturn s) a w =
      some (.ok ((Scopes.eval (a.memory w).scopes (.parse s.content)).mapError .cyclic), a, w) := by
    rw [readReturn, exec_tryCatch, exec_bind_of_reads (exec_resolve (.parse s.content))]
    cases Scopes.eval (a.memory w).scopes (.parse s.content) <;> rfl
  refine .congr ((exec_bind_of_reads exec_activation _).trans (exec_bind_of_reads hread _)) ?_
  rw [Activation.ret]
  cases Scopes.eval (a.memory w).scopes (.parse s.content) with
  | error cycle => exact GoesOn.performs ⟨some a.function.size, a, rfl, rfl⟩
  | ok v? =>
      cases v? with
      | none => exact GoesOn.performs ⟨some a.function.size, a, rfl, rfl⟩
      | some v =>
          dsimp only [mapError_ok, mapError_error]
          cases v.isEmpty
          · exact GoesOn.performs ⟨some a.function.size, _, rfl, rfl⟩
          · exact GoesOn.performs ⟨some a.function.size, a, rfl, rfl⟩

end Handler

/-- The result of a call as its caller sees it: a failure is `Raised` there. -/
def Outcome.raised (o : Outcome) : Except Raised (Option Tagged) × World :=
  (o.result.mapError .failure, o.world)

namespace Handler

variable {E : Engine} {call : String → Store → World → Option Outcome}
  {call' : String → Store → World → Option (Except Raised (Option Tagged) × World)}

/-- A statement that calls a function performs the step of the machine, if the two executors of
calls agree. -/
theorem performs_invoke
    (hc : ∀ name args w, call' name args w = (call name args w).map Outcome.raised)
    (s : Statement) {actuals : Store} (hm : (a.memory w).actuals s = .ok actuals) :
    Performs form
      (do
        let actuals ← Handler.actuals s
        tolerating E (invoke call' s.content actuals)
        return none) a w
      ((call s.content actuals w).map fun o => E.resume a o.result o.world) := by
  have hcall := hc s.content actuals w
  cases ho : call s.content actuals w with
  | some o =>
      rw [ho] at hcall
      exact performs_of_tolerated E hm (exec_tolerating E (exec_invoke hcall))
  | none =>
      rw [ho] at hcall
      -- a call that has run out of fuel takes the statement with it
      have hexec : exec (do
          let actuals ← Handler.actuals s
          tolerating E (invoke call' s.content actuals)
          return none : Handler (Option Nat)) a w = none := by
        rw [exec_bind_of_reads (exec_actuals s), hm, mapError_ok, andThen_ok, exec_bind,
          tolerating, exec_tryCatch, exec_invoke_none hcall]
        rfl
      refine ⟨by rw [hexec]; rfl, fun he => ?_⟩
      rw [hexec] at he
      cases he

/-- Every handler `Performs` the step of its statement, if the two executors of calls agree. The
cases are the forms. -/
theorem performs_ofStatement
    (hc : ∀ name args w, call' name args w = (call name args w).map Outcome.raised)
    (s : Statement) :
    Performs s.form (ofStatement E call' s) a w (E.step call a s w) := by
  unfold ofStatement Engine.step
  cases s.form with
  | callInstruction =>
      dsimp only
      cases hm : (a.memory w).actuals s with
      | error e => exact performs_actuals_error hm
      | ok actuals =>
          exact performs_of_tolerated E hm (exec_tolerating E (exec_send E s.content actuals))
  | callFunction =>
      dsimp only
      cases hm : (a.memory w).actuals s with
      | error e => exact performs_actuals_error hm
      | ok actuals => exact performs_invoke hc s hm
  | loop => exact performs_loop s
  | endLoop => exact performs_endLoop
  | ret => exact performs_ret s
  | setVar => exact performs_of_assigned (exec_setVar s)
  | setLocal => exact performs_of_assigned (exec_setLocalStatement s)
  | setGlobal => exact performs_of_assigned (exec_setGlobalStatement s)

end Handler

namespace Engine

/-! ### Calls that raise -/

/-- Execute a call from its current state to its end, statement by statement with
`Handler.ofStatement`. The counterpart of `Engine.run`. -/
def raisingRun (E : Engine) :
    (fuel : Nat) → (depth : Int) → Activation → World →
      Option (Except Raised (Option Tagged) × World)
  | 0, _, _, _ => none
  | fuel + 1, depth, a, w =>
    match a.current? with
    | none =>
      match a.result with
      | some v => some (.ok (some v), w)
      | none => some (.ok none, w.forgetReturn)
    | some s =>
      let call := fun name args w =>
        match E.entry (depth + 1) name w with
        | .error o => some o.raised
        | .ok f => raisingRun E fuel (depth + 1) (.start f args)
            (w.record (.enter name)).forgetReturn
      match (Handler.ofStatement E call s).exec a w with
      | none => none
      | some r =>
        match Handler.turn s.form r with
        | .stop f w => some (.error (.failure f), w)
        | .next a w => raisingRun E fuel depth a w

/-- Execute a function as a call at a depth of nesting. The counterpart of `Engine.execute`. -/
def raisingExecute (E : Engine) (fuel : Nat) (depth : Int) (f : Function) (args : Store)
    (w : World) : Option (Except Raised (Option Tagged) × World) :=
  E.raisingRun fuel depth (.start f args) w.forgetReturn

/-- Call the function `name` at a depth of nesting. The counterpart of `Engine.call`. -/
def raisingCall (E : Engine) (fuel : Nat) (depth : Int) (name : String) (args : Store)
    (w : World) : Option (Except Raised (Option Tagged) × World) :=
  match E.entry depth name w with
  | .error o => some o.raised
  | .ok f => E.raisingRun fuel depth (.start f args) (w.record (.enter name)).forgetReturn

variable {E : Engine}

theorem raisingCall_eq_of_run {fuel : Nat} {depth : Int}
    (hrun : ∀ a w, E.raisingRun fuel depth a w = (E.run fuel depth a w).map Outcome.raised)
    (name : String) (args : Store) (w : World) :
    E.raisingCall fuel depth name args w = (E.call fuel depth name args w).map Outcome.raised := by
  rw [raisingCall, call_eq]
  cases E.entry depth name w with
  | error o => rfl
  | ok f => exact hrun _ _

/-- A run of handlers is a run of steps: by induction on the fuel, from `performs_ofStatement`.
-/
theorem raisingRun_eq (fuel : Nat) (depth : Int) (a : Activation) (w : World) :
    E.raisingRun fuel depth a w = (E.run fuel depth a w).map Outcome.raised := by
  induction fuel generalizing depth a w with
  | zero => rfl
  | succ fuel ih =>
      cases hs : a.current? with
      | none =>
          rw [run_of_over hs, raisingRun, hs, Activation.finish]
          cases a.result <;> rfl
      | some s =>
          -- by the induction hypothesis, calls made here are calls of the machine
          have hstep : ((Handler.ofStatement E (E.raisingCall fuel (depth + 1)) s).exec a w).map
              (Handler.turn s.form) = E.step (E.call fuel (depth + 1)) a s w :=
            (Handler.performs_ofStatement (raisingCall_eq_of_run (ih (depth + 1))) s).turn
          have hopen : E.raisingRun (fuel + 1) depth a w =
              match (Handler.ofStatement E (E.raisingCall fuel (depth + 1)) s).exec a w with
              | none => none
              | some r =>
                match Handler.turn s.form r with
                | .stop f w => some (.error (.failure f), w)
                | .next a w => E.raisingRun fuel depth a w := by
            rw [raisingRun, hs]
            rfl
          rw [run_of_current? hs, ← hstep, hopen]
          cases (Handler.ofStatement E (E.raisingCall fuel (depth + 1)) s).exec a w with
          | none => rfl
          | some r =>
              dsimp only [Option.map_some, Option.bind_some]
              cases Handler.turn s.form r with
              | stop f w => rfl
              | next a w => exact ih depth a w

theorem raisingCall_eq (fuel : Nat) (depth : Int) (name : String) (args : Store) (w : World) :
    E.raisingCall fuel depth name args w = (E.call fuel depth name args w).map Outcome.raised :=
  raisingCall_eq_of_run (raisingRun_eq fuel depth) name args w

/-- No `BindingError` comes out of what is a call with an outcome. -/
theorem raised_ne_binding {o? : Option Outcome} {e : BindingError} {w : World} :
    o?.map Outcome.raised ≠ some (.error (.binding e), w) := by
  intro h
  obtain ⟨o, -, ho⟩ := Option.map_eq_some_iff.1 h
  have hr : o.result.mapError Raised.failure = .error (.binding e) := congrArg Prod.fst ho
  cases hres : o.result with
  | ok v => rw [hres] at hr; cases hr
  | error f => rw [hres] at hr; cases hr

/-- **`BindingError`s stay where they are raised.** Executed with handlers that
write in place and raise where they like, calls have the outcomes of the
machine, and none is a `BindingError`. A handler that raises one has written
nothing: the step logs one message, and the call goes on with the following
statement from scopes, counters and a result that are as they were. -/
theorem bindingErrors_contained (E : Engine) (fuel : Nat) (depth : Int) :
    (∀ f args w, E.raisingExecute fuel depth f args w =
        (E.execute fuel depth f args w).map Outcome.raised ∧
      ∀ e w', E.raisingExecute fuel depth f args w ≠ some (.error (.binding e), w')) ∧
    (∀ name args w, E.raisingCall fuel depth name args w =
        (E.call fuel depth name args w).map Outcome.raised ∧
      ∀ e w', E.raisingCall fuel depth name args w ≠ some (.error (.binding e), w')) ∧
    ∀ a s w e a' w',
      (Handler.ofStatement E (E.raisingCall fuel (depth + 1)) s).exec a w =
        some (.error (.binding e), a', w') →
      a' = a ∧ w' = w ∧
      ∃ b u, E.step (E.call fuel (depth + 1)) a s w = some (.next b u) ∧
        b = { a with pos := a.pos + 1 } ∧
        u.globals = w.globals ∧ u.frames = w.frames ∧
        u.messages = w.messages ++ [(.error, a.function.name ++ "[" ++ toString a.pos ++ "] " ++
          s.form.name ++ ": " ++ e.message)] := by
  refine ⟨fun f args w => ?_, fun name args w => ?_, ?_⟩
  · have heq : E.raisingExecute fuel depth f args w =
        (E.execute fuel depth f args w).map Outcome.raised := raisingRun_eq fuel depth _ _
    exact ⟨heq, fun e w' => heq ▸ raised_ne_binding⟩
  · have heq := E.raisingCall_eq fuel depth name args w
    exact ⟨heq, fun e w' => heq ▸ raised_ne_binding⟩
  · intro a s w e a' w' hraise
    have hp := Handler.performs_ofStatement (E := E) (a := a) (w := w)
      (E.raisingCall_eq fuel (depth + 1)) s
    obtain ⟨rfl, rfl⟩ := hp.kept hraise
    have hturn := hp.turn
    rw [hraise] at hturn
    refine ⟨rfl, rfl, a'.advance, w'.log .error (a'.describe s.form e.message), hturn.symm, rfl,
      rfl, World.frames_log .., World.messages_log ..⟩

/-- An assignment that subtracts a number from a text, which is a `BindingError`. -/
def subtraction : Statement := .setVar "x" ":=" ⟨"str", "a"⟩ "-" ⟨"int", "1"⟩ ""

/-- The first pass of a loop around `subtraction`. -/
def subtracting : Activation :=
  { Activation.start (.make "f" [] [.loop ⟨"int", "2"⟩ "", subtraction, .endLoop ""] "") {} with
    pos := 1
    loops := [(0, ⟨1, 2⟩)] }

theorem bindingErrors_contained_subtraction :
    (Handler.ofStatement {} (({} : Engine).raisingCall 0 1) subtraction).exec subtracting
        ⟨{}, #[]⟩ =
      some (.error (.binding (.operator (.needsInts .sub ⟨"str", "a"⟩ ⟨"int", "1"⟩))), subtracting,
        ⟨{}, #[]⟩) ∧
    ∃ b u, ({} : Engine).step (({} : Engine).call 0 1) subtracting subtraction ⟨{}, #[]⟩ =
        some (.next b u) ∧
      b = { subtracting with pos := 2 } ∧ u.globals = {} ∧ u.frames = [] ∧
      u.messages =
        [(.error, "f[1] SET_VAR: Operator '-' requires int operands: str:a - int:1")] := by
  have hraise : (Handler.ofStatement {} (({} : Engine).raisingCall 0 1) subtraction).exec
      subtracting ⟨{}, #[]⟩ =
        some (.error (.binding (.operator (.needsInts .sub ⟨"str", "a"⟩ ⟨"int", "1"⟩))),
          subtracting, ⟨{}, #[]⟩) := rfl
  obtain ⟨-, -, hstep⟩ := bindingErrors_contained {} 0 0
  obtain ⟨-, -, b, u, hnext, hb, hglobals, hframes, hmessages⟩ := hstep _ _ _ _ _ _ hraise
  exact ⟨hraise, b, u, hnext, hb, hglobals, hframes, hmessages.trans (by decide)⟩

end Engine

end BusScript
