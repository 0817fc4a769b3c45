import BusScript.Proofs.Nesting
import Mathlib.Logic.Relation

/-!
# What statements do

The machine has eight forms of statements, and each of them can end in several
ways. Seen from outside, a step is one of few **actions**: the call goes on
elsewhere, a message is logged, variables are assigned, a value is returned, an
instruction is sent, a function is called, or the call ends. `action_of_step`
says so, with all that is left behind. What holds of every action holds of every
step, and no proof about steps has to look at the forms again.

A run is a chain of such steps, those of its nested calls included. Of the world
it therefore changes nothing but by what some configuration that it visits does
to it: `changes_of_run`. Invariants of runs are read off the few ways in which
a configuration can act (`Acts`).
-/

namespace BusScript

/-- An assigning statement takes the scopes `m` to other scopes: by `Memory.setVar` or one of
its two kin. -/
inductive Statement.Assigns (s : Statement) (m : Memory) : Memory → Prop
  | setVar {m' : Memory} (hform : s.form = .setVar) (hm : m.setVar s = .ok m') : Assigns s m m'
  | setLocal {m' : Memory} (hform : s.form = .setLocal) (hm : m.setLocalStatement s = .ok m') :
      Assigns s m m'
  | setGlobal {m' : Memory} (hform : s.form = .setGlobal) (hm : m.setGlobalStatement s = .ok m') :
      Assigns s m m'

/-- The world that a turn leaves, whether it goes on or stops. -/
def Turn.world : Turn → World
  | .next _ w => w
  | .stop _ w => w

namespace Engine

/-! ### Calls that enter no function -/

/-- The outcome of a call that is nested too deeply: `Fault.depth`, unless its `level` or the
`limit` is too long to be written. -/
inductive Refusal (level limit : Int) (name : String) (w : World) : Outcome → Prop
  | fault (hlevel : Numeral.writable level = true) (hlimit : Numeral.writable limit = true) :
      Refusal level limit name w ⟨.error (.error (.depth level limit name)),
        w.log .fatal (Fault.depth level limit name).message⟩
  | overlong (hlong : Numeral.writable level = false ∨ Numeral.writable limit = false) :
      Refusal level limit name w ⟨.error .unwritable, w⟩

/-- A call enters no function (`entry`) if there is none of its name, or if it is nested too
deeply. -/
theorem entry_error_cases {E : Engine} {depth : Int} {name : String} {w : World} {o : Outcome}
    (h : E.entry depth name w = .error o) :
    (E.findFunction? name = none ∧ o =
      ⟨.error (.error (.unknown .function name)),
        w.log .error (Fault.unknown .function name).message⟩) ∨
    ∃ limit, E.exceeded? depth = some limit ∧ Refusal depth limit name w o := by
  unfold entry at h
  cases hf : E.findFunction? name with
  | none =>
      rw [hf] at h
      cases h
      exact .inl ⟨rfl, rfl⟩
  | some f =>
      rw [hf] at h
      cases hlimit : E.exceeded? depth with
      | none => rw [hlimit] at h; cases h
      | some limit =>
          simp only [hlimit, Failure.showing, List.all_cons, List.all_nil, Bool.and_true] at h
          refine .inr ⟨limit, rfl, ?_⟩
          cases hlevel : Numeral.writable depth <;> cases hlim : Numeral.writable limit <;>
            simp only [hlevel, hlim, Bool.and_self, Bool.and_false, Bool.and_true, if_true,
              Bool.false_eq_true, if_false] at h <;> cases h
          · exact .overlong (.inl hlevel)
          · exact .overlong (.inl hlevel)
          · exact .overlong (.inr hlim)
          · exact .fault hlevel hlim

/-- A call that enters no function has no value as its `result`. -/
theorem result_of_entry {E : Engine} {depth : Int} {name : String} {w : World} {o : Outcome}
    (h : E.entry depth name w = .error o) : ∃ f, o.result = .error f := by
  rcases entry_error_cases h with ⟨-, rfl⟩ | ⟨limit, -, hr⟩
  · exact ⟨_, rfl⟩
  · cases hr <;> exact ⟨_, rfl⟩

/-! ### Steps -/

/-- What a statement can lead to: every turn of `Engine.step` is one of these. -/
inductive Action (E : Engine) (call : String → Store → World → Option Outcome) (a : Activation)
    (s : Statement) (w : World) : Turn → Prop
  /-- The call goes on at `pos`, with the counters `loops`. -/
  | move (pos : Nat) (loops : List (Nat × Counter)) :
      Action E call a s w (.next { a with pos, loops } w)
  /-- An error is logged and the call goes on at `pos`. -/
  | report (pos : Nat) (text : String) :
      Action E call a s w (.next (a.goto pos) (w.log .error text))
  /-- Variables are assigned, as `Statement.Assigns` says. -/
  | assign {m : Memory} (hm : s.Assigns (a.memory w) m) :
      Action E call a s w
        (.next { a with locals := m.locals }.advance { w with globals := m.globals })
  /-- The value `v` is returned. -/
  | keep {v : Tagged} (hv : Scopes.eval (a.memory w).scopes (.parse s.content) = .ok (some v))
      (hne : v.isEmpty = false) :
      Action E call a s w (.next { a with result := some v }.leave (w.keepReturn v))
  /-- An instruction is sent with the arguments `actuals`. -/
  | send {actuals : Store} (hform : s.form = .callInstruction)
      (hactuals : (a.memory w).actuals s = .ok actuals) :
      Action E call a s w
        (E.resume a (E.send s.content actuals w).1 (E.send s.content actuals w).2)
  /-- A function is called with the arguments `actuals`, and ends with `o`. -/
  | call {actuals : Store} {o : Outcome} (hform : s.form = .callFunction)
      (hactuals : (a.memory w).actuals s = .ok actuals)
      (hcall : call s.content actuals w = some o) :
      Action E call a s w (E.resume a o.result o.world)
  /-- The loops of the function are not paired up (`LoopFault`). -/
  | unpaired (e : LoopFault) :
      Action E call a s w (.stop (.error (.structural e)) (w.log .fatal e.message))
  /-- An integer is too long to be written. -/
  | overlong : Action E call a s w (.stop .unwritable w)

section

variable {E : Engine} {call : String → Store → World → Option Outcome} {a : Activation}
  {s : Statement} {w : World}

theorem action_of_pass (index : LoopIndex) (c : Counter) :
    E.Action call a s w (.next (a.pass index c) w) := by
  unfold Activation.pass
  dsimp only
  split
  · exact .move _ _
  · exact .move _ _

theorem action_of_loop (index : LoopIndex) : E.Action call a s w (a.loop s w index) := by
  unfold Activation.loop
  cases a.loops.lookup a.pos with
  | some c => exact action_of_pass index c
  | none =>
      cases Activation.loopCount (a.memory w) s with
      | error e => exact .report _ _
      | ok n =>
          dsimp only
          split
          · exact action_of_pass index ⟨0, n⟩
          · exact .overlong

/-- With an index, `withIndex` does what follows; without one, the call ends as `unpaired`. -/
theorem action_of_withIndex {go : LoopIndex → Turn}
    (hgo : ∀ index, E.Action call a s w (go index)) : E.Action call a s w (a.withIndex w go) := by
  unfold Activation.withIndex
  cases a.function.loopIndex with
  | ok index => exact hgo index
  | error e => exact .unpaired e

theorem action_of_ret : E.Action call a s w (a.ret s w) := by
  unfold Activation.ret
  cases hv : Scopes.eval (a.memory w).scopes (.parse s.content) with
  | error cycle => exact .report _ _
  | ok v? =>
      cases v? with
      | none => exact .report _ _
      | some v =>
          dsimp only
          cases hne : v.isEmpty with
          | true => exact .move _ _
          | false => exact .keep hv hne

/-- An assignment that fails is reported, and any other one is an `assign`. -/
theorem action_of_commit {form : Form} {m? : Except (Failure BindingError) Memory}
    (hm : ∀ m, m? = .ok m → s.Assigns (a.memory w) m) :
    E.Action call a s w (a.commit form w m?) := by
  cases m? with
  | ok m => exact .assign (hm m rfl)
  | error f =>
      cases f with
      | error e => exact .report _ _
      | unwritable => exact .overlong

/-- A step is an `Action`. This is the one place where the forms of statements are gone through.
-/
theorem action_of_step {t : Turn} (h : E.step call a s w = some t) :
    E.Action call a s w t := by
  unfold step at h
  cases hform : s.form with
  | callInstruction =>
      simp only [hform] at h
      cases hm : (a.memory w).actuals s with
      | error e =>
          rw [hm] at h
          cases h
          exact .report _ _
      | ok actuals =>
          rw [hm] at h
          cases h
          exact .send hform hm
  | callFunction =>
      simp only [hform] at h
      cases hm : (a.memory w).actuals s with
      | error e =>
          rw [hm] at h
          cases h
          exact .report _ _
      | ok actuals =>
          rw [hm] at h
          obtain ⟨o, hcall, rfl⟩ := Option.map_eq_some_iff.1 h
          exact .call hform hm hcall
  | loop =>
      simp only [hform] at h
      cases h
      exact action_of_withIndex action_of_loop
  | endLoop =>
      simp only [hform] at h
      cases h
      exact action_of_withIndex fun index => .move _ _
  | ret =>
      simp only [hform] at h
      cases h
      exact action_of_ret
  | setVar =>
      simp only [hform] at h
      cases h
      exact action_of_commit fun m hm => .setVar hform hm
  | setLocal =>
      simp only [hform] at h
      cases h
      exact action_of_commit fun m hm => .setLocal hform hm
  | setGlobal =>
      simp only [hform] at h
      cases h
      exact action_of_commit fun m hm => .setGlobal hform hm

/-- A call statement goes on behind itself, or ends its call as what it called has ended, unless
the engine tolerates that (`tolerates`). -/
theorem resume_cases {α : Type} (E : Engine) (a : Activation) (r : Except (Failure Fault) α)
    (w : World) :
    E.resume a r w = .next a.advance w ∨
      ∃ f, r = .error f ∧ E.tolerates f = false ∧ E.resume a r w = .stop f w := by
  cases r with
  | ok v => exact .inl rfl
  | error f =>
      unfold resume
      cases hf : E.tolerates f with
      | true => simp
      | false => simp [hf]

theorem next_of_resume {α : Type} {r : Except (Failure Fault) α} {a' : Activation} {w' : World}
    (h : Turn.next a' w' = E.resume a r w) : a' = a.advance ∧ w' = w := by
  rcases E.resume_cases a r w with hr | ⟨f, -, -, hr⟩ <;> rw [hr] at h <;> cases h
  exact ⟨rfl, rfl⟩

@[simp] theorem world_resume {α : Type} (r : Except (Failure Fault) α) :
    (E.resume a r w).world = w := by
  rcases E.resume_cases a r w with h | ⟨f, -, -, h⟩ <;> rw [h] <;> rfl

/-- A call stays in its `function`, whatever the action. -/
theorem Action.function_eq {a' : Activation} {w' : World}
    (h : E.Action call a s w (.next a' w')) : a'.function = a.function := by
  generalize ht : Turn.next a' w' = t at h
  cases h with
  | send hform hactuals => rw [(next_of_resume ht).1]; rfl
  | call hform hactuals hcall => rw [(next_of_resume ht).1]; rfl
  | unpaired e => cases ht
  | overlong => cases ht
  | _ => cases ht; rfl

end

/-! ### Configurations -/

/-- The configuration `c` stands at a call of an instruction, whose name and arguments are
given. -/
inductive Sends (c : Configuration) : String → Store → Prop
  | intro {s : Statement} {actuals : Store} (hs : c.activation.current? = some s)
      (hform : s.form = .callInstruction)
      (hactuals : (c.activation.memory c.world).actuals s = .ok actuals) :
      Sends c s.content actuals

/-- What a configuration itself can do to the world, apart from the calls that it makes. -/
inductive Acts (E : Engine) (c : Configuration) : World → Prop
  /-- It logs an error. -/
  | report {severity : Severity} (text : String) (hserious : severity.serious = true) :
      Acts E c (c.world.log severity text)
  /-- It assigns variables. -/
  | assign {s : Statement} {m : Memory} (hs : c.activation.current? = some s)
      (hm : s.Assigns (c.activation.memory c.world) m) :
      Acts E c { c.world with globals := m.globals }
  /-- It keeps a value that it returns. -/
  | keep (v : Tagged) : Acts E c (c.world.keepReturn v)
  /-- It sends the `frame` of an instruction, and says so before. -/
  | send {name : String} {actuals : Store} {i : Instruction} {frame : Frame} {text : String}
      (hsends : Sends c name actuals) (hi : E.findInstruction? name = some i)
      (hframe : i.encode E.frameSize actuals = .ok frame) (htext : frame.render? = some text) :
      Acts E c ((c.world.log .info ("instruction data: " ++ text)).record (.send frame))
  /-- It enters the function `name`. -/
  | enter (name : String) : Acts E c (c.world.record (.enter name)).forgetReturn
  /-- It is over without a result, and forgets what nested calls have returned. -/
  | forget : Acts E c c.world.forgetReturn

/-- From `start` on, the world `w` changes to `w'` by what a visited configuration does to it
(`Acts`). -/
def Changes (E : Engine) (start : Configuration) (w w' : World) : Prop :=
  ∃ c, E.Visits start c ∧ c.world = w ∧ E.Acts c w'

open Relation (ReflTransGen)

variable {E : Engine} {depth : Int} {a : Activation} {w : World} {c : Configuration}

theorem changes_of_acts {w' : World} (h : E.Acts c w') :
    ReflTransGen (E.Changes c) c.world w' :=
  .single ⟨c, .here c, rfl, h⟩

/-- What a visited configuration visits is visited, so its `Changes` are changes as well. -/
theorem changes_mono {c' : Configuration} {u u' : World}
    (hvisits : ∀ d, E.Visits c' d → E.Visits c d) (h : ReflTransGen (E.Changes c') u u') :
    ReflTransGen (E.Changes c) u u' := by
  refine ReflTransGen.mono ?_ _ _ h
  rintro v v' ⟨d, hvisit, hd⟩
  exact ⟨d, hvisits d hvisit, hd⟩

/-- Sending an instruction is made up of what a configuration can do: log, and send. -/
theorem changes_of_send {name : String} {actuals : Store} (h : Sends c name actuals) :
    ReflTransGen (E.Changes c) c.world (E.send name actuals c.world).2 := by
  unfold send
  cases hi : E.findInstruction? name with
  | none => exact changes_of_acts (.report _ rfl)
  | some i =>
      dsimp only
      cases hframe : i.encode E.frameSize actuals with
      | error f =>
          cases f with
          | error e => exact changes_of_acts (.report _ rfl)
          | unwritable => exact .refl
      | ok frame =>
          dsimp only
          cases htext : frame.render? with
          | none => exact .refl
          | some text => exact changes_of_acts (.send h hi hframe htext)

/-- A call that enters no function changes the world by one message at most. -/
theorem changes_of_entry {level : Int} {name : String} {o : Outcome}
    (h : E.entry level name c.world = .error o) :
    ReflTransGen (E.Changes c) c.world o.world := by
  rcases entry_error_cases h with ⟨-, rfl⟩ | ⟨limit, -, hr⟩
  · exact changes_of_acts (.report _ rfl)
  · cases hr with
    | fault hlevel hlimit => exact changes_of_acts (.report _ rfl)
    | overlong hlong => exact .refl

/-- A step changes the world by what its configuration does (`Acts`), or by what is done in the
call that it makes, for which `hrun` is the hypothesis of the induction. -/
theorem changes_of_step {fuel : Nat} {s : Statement} {t : Turn} (hs : a.current? = some s)
    (hrun : ∀ {a : Activation} {w : World} {o : Outcome},
      E.run fuel (depth + 1) a w = some o →
        ReflTransGen (E.Changes ⟨depth + 1, a, w⟩) w o.world)
    (h : E.step (E.call fuel (depth + 1)) a s w = some t) :
    ReflTransGen (E.Changes ⟨depth, a, w⟩) w t.world := by
  cases action_of_step h with
  | move pos loops => exact .refl
  | report pos text => exact changes_of_acts (.report text rfl)
  | assign hm => exact changes_of_acts (c := ⟨depth, a, w⟩) (.assign hs hm)
  | keep hv hne => exact changes_of_acts (.keep _)
  | send hform hactuals =>
      rw [world_resume]
      exact changes_of_send (c := ⟨depth, a, w⟩) (.intro hs hform hactuals)
  | unpaired e => exact changes_of_acts (.report _ rfl)
  | overlong => exact .refl
  | @call actuals o hform hactuals hcall =>
      rw [world_resume]
      rw [call_eq] at hcall
      cases hentry : E.entry (depth + 1) s.content w with
      | error o' =>
          rw [hentry] at hcall
          cases hcall
          exact changes_of_entry (c := ⟨depth, a, w⟩) hentry
      | ok f =>
          rw [hentry] at hcall
          have hcallee : ReflTransGen (E.Changes ⟨depth, a, w⟩)
              (w.record (.enter s.content)).forgetReturn o.world :=
            changes_mono (fun _ => .call hs hform hactuals hentry) (hrun hcall)
          exact (changes_of_acts (c := ⟨depth, a, w⟩) (.enter s.content)).trans hcallee

/-- Nothing in the world of a run changes but by `Changes`: what a visited configuration does to
it. -/
theorem changes_of_run {fuel : Nat} {o : Outcome} (h : E.run fuel depth a w = some o) :
    ReflTransGen (E.Changes ⟨depth, a, w⟩) w o.world := by
  induction fuel generalizing depth a w o with
  | zero => simp at h
  | succ fuel ih =>
      cases hs : a.current? with
      | none =>
          rw [run_of_over hs] at h
          cases h
          unfold Activation.finish
          cases a.result with
          | some v => exact .refl
          | none => exact changes_of_acts (c := ⟨depth, a, w⟩) .forget
      | some s =>
          rw [run_of_current? hs] at h
          obtain ⟨t, ht, hfollow⟩ := Option.bind_eq_some_iff.1 h
          have hstep := changes_of_step hs ih ht
          cases t with
          | stop f w' =>
              cases hfollow
              exact hstep
          | next a' w' => exact hstep.trans (changes_mono (fun _ => .next hs ht) (ih hfollow))

/-- Nor does anything change otherwise on the way to a configuration, whether or not the run
comes to an end. -/
theorem changes_of_visits {c' : Configuration} (h : E.Visits c c') :
    ReflTransGen (E.Changes c) c.world c'.world := by
  induction h with
  | here c => exact .refl
  | next hs hstep h ih =>
      have hfirst := changes_of_step hs changes_of_run hstep
      exact hfirst.trans (changes_mono (fun _ => .next hs hstep) ih)
  | @call depth a w s actuals f c hs hform hactuals hentry h ih =>
      have hfirst := changes_of_acts (E := E) (c := ⟨depth, a, w⟩) (.enter s.content)
      exact hfirst.trans (changes_mono (fun _ => .call hs hform hactuals hentry) ih)

/-! ### The trace grows -/

/-- Whatever a configuration does, it only adds to the `trace`. -/
theorem trace_prefix_of_acts {w' : World} (h : E.Acts c w') :
    c.world.trace.toList <+: w'.trace.toList := by
  cases h with
  | report text hserious => simp [World.log, World.record]
  | assign hs hm => exact List.prefix_rfl
  | keep v => exact List.prefix_rfl
  | send hsends hi hframe htext => simp [World.log, World.record]
  | enter name => simp [World.record, World.forgetReturn]
  | forget => exact List.prefix_rfl

theorem trace_prefix_of_changes {u u' : World} (h : ReflTransGen (E.Changes c) u u') :
    u.trace.toList <+: u'.trace.toList := by
  induction h with
  | refl => exact List.prefix_rfl
  | tail _ hchange ih =>
      obtain ⟨d, -, rfl, hacts⟩ := hchange
      exact ih.trans (trace_prefix_of_acts hacts)

/-- A turn takes nothing back from the `trace`, wherever it leads. -/
theorem trace_prefix_of_follow {fuel : Nat} {t : Turn} {o : Outcome}
    (h : E.follow fuel depth t = some o) : t.world.trace.toList <+: o.world.trace.toList := by
  cases t with
  | stop f w' =>
      cases h
      exact List.prefix_rfl
  | next a' w' => exact trace_prefix_of_changes (changes_of_run h)

/-- A call takes nothing back from the `trace`. -/
theorem trace_prefix_of_call {fuel : Nat} {name : String} {args : Store} {o : Outcome}
    (h : E.call fuel depth name args w = some o) :
    w.trace.toList <+: o.world.trace.toList := by
  rw [call_eq] at h
  cases hentry : E.entry depth name w with
  | error o' =>
      rw [hentry] at h
      cases h
      rcases entry_error_cases hentry with ⟨-, rfl⟩ | ⟨limit, -, hr⟩
      · simp [World.log, World.record]
      · cases hr <;> simp [World.log, World.record]
  | ok f =>
      rw [hentry] at h
      have hentered : w.trace.toList <+:
          (w.record (.enter name)).forgetReturn.trace.toList := by
        simp [World.record, World.forgetReturn]
      exact hentered.trans (trace_prefix_of_changes (changes_of_run h))

end Engine

end BusScript
