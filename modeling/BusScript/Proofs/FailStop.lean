import BusScript.Proofs.Action
import BusScript.Proofs.Escape

/-!
# Faults stop

A call that ends by a fault has raised it in one place: at a statement that
calls what is not there, what can not be encoded or what is nested too deeply,
or that jumps in a function whose loops are not paired up. The fault is logged
in that place, and from there on nothing happens: no caller logs it again, and
none sends a frame or binds a variable. The world that the outermost call leaves
is the world of the configuration that raised the fault, with one message more.

* `Raises` is what a configuration does itself: the nested calls that it makes
  are configurations of their own.
* `exists_raises_of_run` finds the place of a fault.
* `run_of_raises` follows the fault from there through all that led to it.
-/

namespace BusScript

/-- The weight with which a fault is logged: a missing definition is an `error`, all else is
`fatal`. -/
def Fault.severity (fault : Fault) : Severity := if fault.isUnknown then .error else .fatal

/-- Log a fault by its `severity` and its `message`. -/
def World.report (w : World) (fault : Fault) : World := w.log fault.severity fault.message

namespace Engine

variable {E : Engine}

/-! ### Where faults come from -/

/-- A call of the instruction `name` raises a fault: there is none of its name, or its `actuals`
are not encoded. -/
inductive SendRaises (E : Engine) (name : String) (actuals : Store) : Fault → Prop
  | unknown (hi : E.findInstruction? name = none) :
      SendRaises E name actuals (.unknown .instruction name)
  | encoding {i : Instruction} {e : EncodeError} (hi : E.findInstruction? name = some i)
      (he : i.encode E.frameSize actuals = .error (.error e)) :
      SendRaises E name actuals (.encoding e)

/-- A call of the function `name` raises a fault before it is entered: there is none of its
name, or it is nested too deeply. -/
inductive EntryRaises (E : Engine) (depth : Int) (name : String) : Fault → Prop
  | unknown (hf : E.findFunction? name = none) :
      EntryRaises E depth name (.unknown .function name)
  | depth {f : Function} {limit : Int} (hf : E.findFunction? name = some f)
      (hlimit : E.exceeded? depth = some limit) (hdepth : Numeral.writable depth = true)
      (hwritable : Numeral.writable limit = true) :
      EntryRaises E depth name (.depth depth limit name)

/-- A configuration raises a fault: by the call that its statement makes (`SendRaises`,
`EntryRaises`), or because its statement jumps where the loops are not paired up. -/
inductive Raises (E : Engine) (c : Configuration) : Fault → Prop
  | send {name : String} {actuals : Store} {fault : Fault} (hsends : Sends c name actuals)
      (hr : E.SendRaises name actuals fault) : Raises E c fault
  | entry {s : Statement} {actuals : Store} {fault : Fault}
      (hs : c.activation.current? = some s) (hform : s.form = .callFunction)
      (hactuals : (c.activation.memory c.world).actuals s = .ok actuals)
      (hr : E.EntryRaises (c.depth + 1) s.content fault) : Raises E c fault
  | unpaired {s : Statement} {e : LoopFault} (hs : c.activation.current? = some s)
      (hform : s.form = .loop ∨ s.form = .endLoop)
      (he : c.activation.function.loopIndex = .error e) : Raises E c (.structural e)

/-- The faults of `send` are those that it raises, and it has then done nothing but to `report`
them. -/
theorem send_eq_fault_iff {name : String} {actuals : Store} {w w' : World} {fault : Fault} :
    E.send name actuals w = (.error (.error fault), w') ↔
      E.SendRaises name actuals fault ∧ w' = w.report fault := by
  constructor
  · intro h
    unfold send at h
    cases hi : E.findInstruction? name with
    | none =>
        rw [hi] at h
        cases h
        exact ⟨.unknown hi, rfl⟩
    | some i =>
        rw [hi] at h
        dsimp only at h
        cases hframe : i.encode E.frameSize actuals with
        | error f =>
            rw [hframe] at h
            cases f with
            | unwritable => cases h
            | error e =>
                cases h
                exact ⟨.encoding hi hframe, rfl⟩
        | ok frame =>
            rw [hframe] at h
            dsimp only at h
            split at h <;> cases h
  · rintro ⟨hr, rfl⟩
    cases hr with
    | unknown hi => simp only [send, hi]; rfl
    | encoding hi he => simp only [send, hi, he]; rfl

/-- So are the faults of `entry`. -/
theorem entry_eq_fault_iff {depth : Int} {name : String} {w w' : World} {fault : Fault} :
    E.entry depth name w = .error ⟨.error (.error fault), w'⟩ ↔
      E.EntryRaises depth name fault ∧ w' = w.report fault := by
  constructor
  · intro h
    cases hf : E.findFunction? name with
    | none =>
        simp only [entry, hf] at h
        cases h
        exact ⟨.unknown hf, rfl⟩
    | some f =>
        rcases entry_error_cases h with ⟨hnone, -⟩ | ⟨limit, hlimit, hr⟩
        · rw [hf] at hnone
          cases hnone
        · cases hr with
          | fault hdepth hwritable => exact ⟨.depth hf hlimit hdepth hwritable, rfl⟩
  · rintro ⟨hr, rfl⟩
    cases hr with
    | unknown hf => simp only [entry, hf]; rfl
    | depth hf hlimit hdepth hwritable =>
        simp only [entry, hf, hlimit, Failure.showing, List.all_cons, List.all_nil, hdepth,
          hwritable, Bool.and_self, if_true]
        rfl

/-! ### Statements -/

section Step

variable {call : String → Store → World → Option Outcome} {a : Activation} {s : Statement}
  {w w' : World} {fault : Fault}

/-- A call statement ends its call by a fault exactly if what it called did and the engine does
not tolerate it (`tolerates`). -/
theorem resume_eq_fault_iff {α : Type} {r : Except (Failure Fault) α} :
    E.resume a r w = .stop (.error fault) w' ↔
      r = .error (.error fault) ∧ w' = w ∧ E.tolerates (.error fault) = false := by
  cases r with
  | ok v => simp [resume]
  | error f =>
      unfold resume
      dsimp only
      cases hf : E.tolerates f with
      | true =>
          simp only [if_true, reduceCtorEq, Except.error.injEq, false_iff, not_and]
          rintro rfl -
          simp [hf]
      | false =>
          simp only [Bool.false_eq_true, if_false, Turn.stop.injEq, Except.error.injEq]
          constructor
          · rintro ⟨rfl, rfl⟩
            exact ⟨rfl, rfl, hf⟩
          · rintro ⟨rfl, rfl, -⟩
            exact ⟨rfl, rfl⟩

/-- A jump ends the call only where the `loopIndex` fails. -/
theorem withIndex_eq_fault {go : LoopIndex → Turn}
    (h : a.withIndex w go = .stop (.error fault) w')
    (hgo : ∀ index, go index ≠ .stop (.error fault) w') :
    ∃ e, a.function.loopIndex = .error e ∧ fault = .structural e ∧ w' = w.report fault := by
  unfold Activation.withIndex at h
  cases he : a.function.loopIndex with
  | ok index =>
      rw [he] at h
      exact absurd h (hgo index)
  | error e =>
      rw [he] at h
      cases h
      exact ⟨e, rfl, rfl, rfl⟩

theorem loop_ne_fault (index : LoopIndex) : a.loop s w index ≠ .stop (.error fault) w' := by
  unfold Activation.loop
  cases a.loops.lookup a.pos with
  | some c => nofun
  | none =>
      cases Activation.loopCount (a.memory w) s with
      | error e => nofun
      | ok n =>
          dsimp only
          split <;> nofun

theorem ret_ne_fault : a.ret s w ≠ .stop (.error fault) w' := by
  unfold Activation.ret
  split
  · nofun
  · nofun
  · split <;> nofun

theorem commit_ne_fault {form : Form} (m? : Except (Failure BindingError) Memory) :
    a.commit form w m? ≠ .stop (.error fault) w' := by
  cases m? with
  | ok m => nofun
  | error f => cases f <;> nofun

/-- A statement that ends its call by a fault `Raises` it, or calls a function that has ended by
it. -/
theorem raises_or_call_of_stop (depth : Int) (hs : a.current? = some s)
    (h : E.step call a s w = some (.stop (.error fault) w')) :
    (E.Raises ⟨depth, a, w⟩ fault ∧ w' = w.report fault) ∨
    ∃ actuals, s.form = .callFunction ∧ (a.memory w).actuals s = .ok actuals ∧
      call s.content actuals w = some ⟨.error (.error fault), w'⟩ := by
  cases hform : s.form with
  | callInstruction =>
      simp only [step, hform] at h
      cases hm : (a.memory w).actuals s with
      | error e => rw [hm] at h; cases h
      | ok actuals =>
          simp only [hm, Option.some.injEq] at h
          obtain ⟨hresult, hworld, -⟩ := resume_eq_fault_iff.1 h
          obtain ⟨hr, hw⟩ := send_eq_fault_iff.1 (Prod.ext hresult hworld.symm)
          exact .inl ⟨.send (.intro hs hform hm) hr, hw⟩
  | callFunction =>
      cases hm : (a.memory w).actuals s with
      | error e => simp only [step, hform, hm] at h; cases h
      | ok actuals =>
          rw [step_callFunction hform hm] at h
          obtain ⟨o, hcall, ho⟩ := Option.map_eq_some_iff.1 h
          obtain ⟨hresult, rfl, -⟩ := resume_eq_fault_iff.1 ho
          refine .inr ⟨actuals, rfl, rfl, ?_⟩
          rw [hcall, ← hresult]
  | loop =>
      simp only [step, hform, Option.some.injEq] at h
      obtain ⟨e, he, rfl, hw⟩ := withIndex_eq_fault h loop_ne_fault
      exact .inl ⟨.unpaired hs (.inl hform) he, hw⟩
  | endLoop =>
      simp only [step, hform, Option.some.injEq] at h
      obtain ⟨e, he, rfl, hw⟩ := withIndex_eq_fault h fun index hjump => by cases hjump
      exact .inl ⟨.unpaired hs (.inr hform) he, hw⟩
  -- what the other forms end for is never a fault
  | ret =>
      simp only [step, hform, Option.some.injEq] at h
      exact absurd h ret_ne_fault
  | setVar =>
      simp only [step, hform, Option.some.injEq] at h
      exact absurd h (commit_ne_fault _)
  | setLocal =>
      simp only [step, hform, Option.some.injEq] at h
      exact absurd h (commit_ne_fault _)
  | setGlobal =>
      simp only [step, hform, Option.some.injEq] at h
      exact absurd h (commit_ne_fault _)

/-- A fault that ends a call is none that the engine `tolerates`. -/
theorem tolerates_of_stop (h : E.step call a s w = some (.stop (.error fault) w')) :
    E.tolerates (.error fault) = false := by
  generalize ht : Turn.stop (.error fault) w' = t at h
  cases action_of_step h with
  | send hform hactuals => exact (resume_eq_fault_iff.1 ht.symm).2.2
  | call hform hactuals hcall => exact (resume_eq_fault_iff.1 ht.symm).2.2
  | unpaired e => cases ht; rfl
  | _ => cases ht

end Step

/-- A statement that `Raises` a fault which is not tolerated ends its call, and has done nothing
but to `report` it. -/
theorem step_of_raises {c : Configuration} {fault : Fault} (h : E.Raises c fault)
    (hstop : E.tolerates (.error fault) = false) :
    ∃ s, c.activation.current? = some s ∧ ∀ fuel,
      E.step (E.call fuel (c.depth + 1)) c.activation s c.world =
        some (.stop (.error fault) (c.world.report fault)) := by
  cases h with
  | @send _ actuals _ hsends hr =>
      cases hsends with
      | @intro s _ hs hform hactuals =>
          refine ⟨s, hs, fun fuel => ?_⟩
          have hsend : E.send s.content actuals c.world =
              (.error (.error fault), c.world.report fault) :=
            send_eq_fault_iff.2 ⟨hr, rfl⟩
          simp only [step, hform, hactuals, hsend]
          exact congrArg some (resume_eq_fault_iff.2 ⟨rfl, rfl, hstop⟩)
  | @entry s actuals _ hs hform hactuals hr =>
      refine ⟨s, hs, fun fuel => ?_⟩
      rw [step_callFunction hform hactuals, call_eq, entry_eq_fault_iff.2 ⟨hr, rfl⟩]
      exact congrArg some (resume_eq_fault_iff.2 ⟨rfl, rfl, hstop⟩)
  | @unpaired s e hs hform he =>
      refine ⟨s, hs, fun fuel => ?_⟩
      rcases hform with hform | hform <;> simp only [step, hform, Activation.withIndex, he] <;> rfl

/-! ### Runs -/

/-- A run that ends by a fault has come to a configuration that `Raises` it, and has left the
world of that configuration with the fault logged. -/
theorem exists_raises_of_run {fuel : Nat} {depth : Int} {a : Activation} {w w' : World}
    {fault : Fault} (h : E.run fuel depth a w = some ⟨.error (.error fault), w'⟩) :
    ∃ c, E.Visits ⟨depth, a, w⟩ c ∧ E.Raises c fault ∧
      E.tolerates (.error fault) = false ∧ w' = c.world.report fault := by
  induction fuel generalizing depth a w with
  | zero => simp at h
  | succ fuel ih =>
      cases hs : a.current? with
      | none =>
          rw [run_of_over hs, Activation.finish] at h
          split at h <;> cases h
      | some s =>
          rw [run_of_current? hs] at h
          obtain ⟨t, ht, hfollow⟩ := Option.bind_eq_some_iff.1 h
          cases t with
          | next a' w₁ =>
              obtain ⟨c, hvisit, hc⟩ := ih hfollow
              exact ⟨c, .next hs ht hvisit, hc⟩
          | stop f w₁ =>
              cases hfollow
              have hstop := tolerates_of_stop ht
              rcases raises_or_call_of_stop depth hs ht with ⟨hr, hw⟩ |
                ⟨actuals, hform, hactuals, hcall⟩
              · exact ⟨_, .here _, hr, hstop, hw⟩
              · -- the callee was not entered, or it has come to the configuration
                rw [call_eq] at hcall
                cases hentry : E.entry (depth + 1) s.content w with
                | error o =>
                    rw [hentry] at hcall
                    cases hcall
                    obtain ⟨hr, hw⟩ := entry_eq_fault_iff.1 hentry
                    exact ⟨_, .here _, .entry hs hform hactuals hr, hstop, hw⟩
                | ok f =>
                    rw [hentry] at hcall
                    obtain ⟨c, hvisit, hc⟩ := ih hcall
                    exact ⟨c, .call hs hform hactuals hentry hvisit, hc⟩

/-- From the configuration that `Raises` it, a fault ends all that led there, and nothing is
done on the way. -/
theorem run_of_raises {c c' : Configuration} {fault : Fault} (hvisit : E.Visits c' c)
    (hr : E.Raises c fault) (hstop : E.tolerates (.error fault) = false) {fuel : Nat}
    {o : Outcome} (h : E.run fuel c'.depth c'.activation c'.world = some o) :
    o = ⟨.error (.error fault), c.world.report fault⟩ := by
  -- induction on the way to the configuration: each call in between hands on what it gets
  induction hvisit generalizing fuel o with
  | here c =>
      obtain ⟨s, hs, hstep⟩ := step_of_raises hr hstop
      cases fuel with
      | zero => simp at h
      | succ fuel =>
          rw [run_of_current? hs, hstep fuel, Option.bind_some, follow_stop] at h
          cases h
          rfl
  | next hs hstep hvisit ih =>
      cases fuel with
      | zero => simp at h
      | succ fuel =>
          rw [run_of_current? hs] at h
          obtain ⟨t, ht, hfollow⟩ := Option.bind_eq_some_iff.1 h
          cases step_unique ht hstep
          exact ih hr hfollow
  | call hs hform hactuals hentry hvisit ih =>
      cases fuel with
      | zero => simp at h
      | succ fuel =>
          rw [run_of_current? hs, step_callFunction hform hactuals] at h
          obtain ⟨t, ht, hfollow⟩ := Option.bind_eq_some_iff.1 h
          obtain ⟨o', hcall, rfl⟩ := Option.map_eq_some_iff.1 ht
          rw [call_eq, hentry] at hcall
          rw [ih hr hcall, resume_eq_fault_iff.2 ⟨rfl, rfl, hstop⟩] at hfollow
          cases hfollow
          rfl

/-! ### Calls -/

/-- What a call that began at `start` has left behind when it ended by a fault that was raised
at `c`. -/
structure Stopped (E : Engine) (start c : Configuration) (fault : Fault) (w' : World) : Prop where
  /-- The fault was raised at a configuration of the call. -/
  visits : E.Visits start c
  raises : E.Raises c fault
  /-- What the call did before is in the trace of `c`. -/
  before : start.world.trace.toList <+: c.world.trace.toList
  /-- After that there is the one message of `report`, and nothing else. -/
  world : w' = c.world.report fault
  /-- All that led to `c` has ended in the same way. -/
  unwinds : ∀ {c' : Configuration} {fuel : Nat} {o : Outcome}, E.Visits c' c →
    E.run fuel c'.depth c'.activation c'.world = some o → o = ⟨.error (.error fault), w'⟩

theorem exists_stopped_of_run {fuel : Nat} {depth : Int} {a : Activation} {w w' : World}
    {fault : Fault} (h : E.run fuel depth a w = some ⟨.error (.error fault), w'⟩) :
    ∃ c, E.Stopped ⟨depth, a, w⟩ c fault w' := by
  obtain ⟨c, hvisit, hr, hstop, rfl⟩ := exists_raises_of_run h
  refine ⟨c, hvisit, hr, trace_prefix_of_changes (changes_of_visits hvisit), rfl, ?_⟩
  intro c' fuel' o hvisit' hrun
  exact run_of_raises hvisit' hr hstop hrun

/-- **Faults stop, and are logged once.** A call that ends by a fault was not entered for it
(`EntryRaises`), or has come to a configuration that `Raises` it; an instruction that ends by a
fault raised it. The last message is the fault's, with its `severity`, and after that message
nothing is logged, sent or bound, through all the loops and calls that led there. -/
theorem fault_stops (E : Engine) (fault : Fault) :
    (∀ fuel depth name args w w',
      E.call fuel depth name args w = some ⟨.error (.error fault), w'⟩ →
      (E.EntryRaises depth name fault ∧ w' = w.report fault) ∨
      ∃ f c, E.entry depth name w = .ok f ∧
        E.Stopped (.entered depth name f args w) c fault w') ∧
    (∀ fuel depth f args w w',
      E.execute fuel depth f args w = some ⟨.error (.error fault), w'⟩ →
      ∃ c, E.Stopped ⟨depth, .start f args, w.forgetReturn⟩ c fault w') ∧
    (∀ name args w w', E.send name args w = (.error (.error fault), w') →
      E.SendRaises name args fault ∧ w' = w.report fault) ∧
    ∀ w : World,
      (w.report fault).messages =
        w.messages ++ [(if fault.isUnknown then .error else .fatal, fault.message)] ∧
      (w.report fault).frames = w.frames ∧ (w.report fault).globals = w.globals := by
  refine ⟨?_, ?_, ?_, ?_⟩
  · intro fuel depth name args w w' h
    rw [call_eq] at h
    cases hentry : E.entry depth name w with
    | error o =>
        rw [hentry] at h
        cases h
        exact .inl (entry_eq_fault_iff.1 hentry)
    | ok f =>
        rw [hentry] at h
        obtain ⟨c, hc⟩ := exists_stopped_of_run h
        exact .inr ⟨f, c, rfl, hc⟩
  · intro fuel depth f args w w' h
    exact exists_stopped_of_run h
  · intro name args w w' h
    exact send_eq_fault_iff.1 h
  · intro w
    exact ⟨World.messages_log .., World.frames_log .., rfl⟩

/-- The instruction `pulse` with a value that does not fit, in a loop of a function that is
called in a loop of another one. -/
def overflowing : Engine where
  instructions := [("pulse", ⟨"pulse", .number 7, [⟨"x", "u8", "", ""⟩], ""⟩)]
  functions :=
    [("f", .make "f" [] [.loop ⟨"int", "2"⟩ "", .callFunction "g" {} "", .endLoop "",
      .setGlobal "late=int:1" ""] ""),
    ("g", .make "g" [] [.setGlobal "early=int:1" "", .callFunction "x" {} "",
      .loop ⟨"int", "3"⟩ "", .callInstruction "pulse" (.ofList [("x", ⟨"int", "300"⟩)]) "",
      .endLoop ""] "")]

theorem fault_stops_overflowing :
    ∃ w', overflowing.call 9 0 "f" {} ⟨{}, #[]⟩ =
        some ⟨.error (.error (.encoding (.field "pulse" "x" (.outOfRange "u8" 300)))), w'⟩ ∧
      w'.messages = [(.error, "No such function: x"),
        (.fatal, "pulse.x: Value 300 out of range for u8")] ∧
      w'.globals = .ofList [("early", ⟨"int", "1"⟩)] ∧
      ∃ f c, overflowing.entry 0 "f" ⟨{}, #[]⟩ = .ok f ∧
        overflowing.Stopped (.entered 0 "f" f {} ⟨{}, #[]⟩) c
          (.encoding (.field "pulse" "x" (.outOfRange "u8" 300))) w' := by
  have hrun : (overflowing.call 9 0 "f" {} ⟨{}, #[]⟩).map
      (fun o => (o.result, o.world.messages, o.world.globals)) =
        some (.error (.error (.encoding (.field "pulse" "x" (.outOfRange "u8" 300)))),
          [(.error, "No such function: x"), (.fatal, "pulse.x: Value 300 out of range for u8")],
          .ofList [("early", ⟨"int", "1"⟩)]) := by
    decide +kernel
  obtain ⟨⟨r, w'⟩, ho, heq⟩ := Option.map_eq_some_iff.1 hrun
  obtain ⟨hresult, heq⟩ := Prod.mk.inj heq
  obtain ⟨hmessages, hglobals⟩ := Prod.mk.inj heq
  dsimp only at hresult
  rw [hresult] at ho
  refine ⟨w', ho, hmessages, hglobals, ?_⟩
  rcases (fault_stops overflowing _).1 9 0 "f" {} _ w' ho with ⟨hr, -⟩ | hstopped
  · cases hr
  · exact hstopped

end Engine

end BusScript
