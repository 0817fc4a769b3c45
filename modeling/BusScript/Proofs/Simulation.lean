import BusScript.Proofs.Numeral
import BusScript.Proofs.Structured

/-!
# The machine executes blocks

The machine reaches the same outcomes as structured execution
(`BusScript.Proofs.Structured`). The link is `Simulates`: a machine state
stands at the front of a block, and whatever outcome the machine has from
there is the one that the block leads to, in both directions. Two simulations
can be put one after the other, so the main lemma `simulates_block` is an
induction on blocks.

The invariant of that induction is what the machine keeps about loops: all
counters belong to loops that open **before** the current block. A loop puts
its own counter on top of them while its body is executed and takes it away at
its end, so the body is executed under the same invariant.
-/

namespace BusScript

/-- The outcome that a conclusion stands for: a refused number of passes is `unwritable`. -/
def Conclusion.toOutcome : Conclusion → Outcome
  | .outcome o => o
  | .refused _ w => ⟨.error .unwritable, w⟩

namespace Engine

variable (E : Engine) (depth : Int)

/-- A block that ended in `exit` leads to the outcome `o`: the machine has it `behind` the
block, within some fuel, or the call is over with it. -/
def Leads (behind : Store → Activation) (fuel : Nat) (exit : Exit) (o : Outcome) : Prop :=
  match exit with
  | .through locals w => ∃ n, n ≤ fuel ∧ E.run n depth (behind locals) w = some o
  | .concluded c => c.toOutcome = o

/-- The machine in the state `a` and the world `w` does what a block does that
ends by `x`, and is then in the state `behind`. Towards the block, this is
only asked up to some fuel. -/
structure Simulates (bound : Nat) (x : Option Exit) (a : Activation) (w : World)
    (behind : Store → Activation) : Prop where
  toMachine : ∀ exit fuel o, x = some exit → E.Leads depth behind fuel exit o →
    ∃ n, E.run n depth a w = some o
  toBlock : ∀ n o, n ≤ bound → E.run n depth a w = some o →
    ∃ exit, x = some exit ∧ E.Leads depth behind n exit o

variable {E depth}

theorem Leads.mono {behind : Store → Activation} {n m : Nat} {exit : Exit} {o : Outcome}
    (h : E.Leads depth behind n exit o) (hnm : n ≤ m) : E.Leads depth behind m exit o := by
  cases exit with
  | through locals w =>
      obtain ⟨k, hk, hrun⟩ := h
      exact ⟨k, Nat.le_trans hk hnm, hrun⟩
  | concluded c => exact h

namespace Simulates

variable {bound : Nat} {a : Activation} {w : World} {behind : Store → Activation}

/-- Behind a block that is run `through`, nothing is left to do. -/
theorem through {locals : Store} (ha : behind locals = a) :
    E.Simulates depth bound (some (.through locals w)) a w behind where
  toMachine exit fuel o hx hl := by
    cases hx
    obtain ⟨n, -, hrun⟩ := hl
    exact ⟨n, ha ▸ hrun⟩
  toBlock n o _ hrun := ⟨_, rfl, n, Nat.le_refl n, ha ▸ hrun⟩

/-- One block after another, as `Exit.andThen` puts them. -/
theorem andThen {x : Option Exit} {next : Store → World → Option Exit}
    {between : Store → Activation} (h : E.Simulates depth bound x a w between)
    (hnext : ∀ locals w,
      E.Simulates depth bound (next locals w) (between locals) w behind) :
    E.Simulates depth bound (Exit.andThen x next) a w behind where
  toMachine exit fuel o hx hl := by
    cases x with
    | none => cases hx
    | some first =>
        cases first with
        | through locals w' =>
            obtain ⟨n, hrun⟩ := (hnext locals w').toMachine exit fuel o hx hl
            exact h.toMachine _ n o rfl ⟨n, Nat.le_refl n, hrun⟩
        | concluded c =>
            cases hx
            exact h.toMachine _ fuel o rfl hl
  toBlock n o hn hrun := by
    -- what follows has no more fuel than the whole, so it is within the bound
    obtain ⟨first, rfl, hl⟩ := h.toBlock n o hn hrun
    cases first with
    | through locals w' =>
        obtain ⟨m, hm, hrun'⟩ := hl
        obtain ⟨exit, hx, hl'⟩ := (hnext locals w').toBlock m o (Nat.le_trans hm hn) hrun'
        exact ⟨exit, hx, hl'.mono hm⟩
    | concluded c => exact ⟨_, rfl, hl⟩

/-- A statement that calls nothing and goes on to the state `a'`. -/
theorem next {x : Option Exit} {s : Statement} {a' : Activation} {w' : World}
    (hs : a.current? = some s) (hstep : ∀ call, E.step call a s w = some (.next a' w'))
    (h : E.Simulates depth bound x a' w' behind) : E.Simulates depth bound x a w behind where
  toMachine exit fuel o hx hl := by
    obtain ⟨n, hrun⟩ := h.toMachine exit fuel o hx hl
    refine ⟨n + 1, ?_⟩
    rw [run_of_current? hs, hstep]
    exact hrun
  toBlock n o hn hrun := by
    cases n with
    | zero => cases hrun
    | succ n =>
        rw [run_of_current? hs, hstep] at hrun
        obtain ⟨exit, hx, hl⟩ := h.toBlock n o (by omega) hrun
        exact ⟨exit, hx, hl.mono (Nat.le_succ n)⟩

/-- A statement that calls nothing and ends the call by the fault `f`. -/
theorem stop {c : Conclusion} {s : Statement} {f : Failure Fault} {w' : World}
    (hs : a.current? = some s) (hstep : ∀ call, E.step call a s w = some (.stop f w'))
    (hc : c.toOutcome = ⟨.error f, w'⟩) :
    E.Simulates depth bound (some (.concluded c)) a w behind where
  toMachine exit fuel o hx hl := by
    cases hx
    refine ⟨1, ?_⟩
    rw [run_of_current? hs, hstep]
    exact congrArg some (hc.symm.trans hl)
  toBlock n o _ hrun := by
    cases n with
    | zero => cases hrun
    | succ n =>
        rw [run_of_current? hs, hstep] at hrun
        exact ⟨_, rfl, hc.trans (Option.some.inj hrun)⟩

end Simulates

/-! ### Statements without brackets -/

/-- The `Setting` of the block that a machine state stands at. -/
def settingOf (E : Engine) (call : String → Store → World → Option Conclusion)
    (a : Activation) : Setting :=
  ⟨E, Numeral.writable, call, a.function, a.args⟩

@[simp] theorem admits_settingOf (call : String → Store → World → Option Conclusion)
    (a : Activation) : (settingOf E call a).admits = Numeral.writable := by
  simp only [settingOf]

/-- The turn that a machine state takes where a block ends by `exit`: on to
the following statement, or to the end of the call. -/
def Turns (a : Activation) (exit : Exit) (t : Turn) : Prop :=
  match exit with
  | .through locals w => t = .next { a with locals }.advance w
  | .concluded c =>
      (∃ f w, t = .stop f w ∧ c.toOutcome = ⟨.error f, w⟩) ∨
        ∃ a' w, t = .next a' w ∧ a'.current? = none ∧ c.toOutcome = a'.finish w

section Turns

variable {call : String → Store → World → Option Conclusion} {a : Activation} {w : World}

theorem Turns.assigned (form : Form) (r : Except (Failure BindingError) Memory) :
    Turns a ((settingOf E call a).assigned a.pos form a.locals w r) (a.commit form w r) := by
  cases r with
  | ok m => rfl
  | error f =>
      cases f with
      | error e => rfl
      | unwritable => exact .inl ⟨_, _, rfl, rfl⟩

theorem Turns.resumed {α : Type} (r : Except (Failure Fault) α) :
    Turns a ((settingOf E call a).resumed a.locals r w) (E.resume a r w) := by
  cases r with
  | ok v => rfl
  | error f =>
      have hE : (settingOf E call a).engine = E := rfl
      cases ht : E.tolerates f with
      | true =>
          simp only [Setting.resumed, hE, resume, ht, if_true]
          rfl
      | false =>
          simp only [Setting.resumed, hE, resume, ht, Bool.false_eq_true, if_false]
          exact .inl ⟨_, _, rfl, rfl⟩

theorem Turns.afterCall (c : Conclusion) :
    Turns a ((settingOf E call a).afterCall a.locals c)
      (E.resume a c.toOutcome.result c.toOutcome.world) := by
  cases c with
  | outcome o => exact Turns.resumed _
  | refused n w => exact .inl ⟨_, _, rfl, rfl⟩

theorem Turns.returned {s : Statement} (hr : a.result = none) :
    Turns a ((settingOf E call a).returned a.pos s a.locals w) (a.ret s w) := by
  -- Without a value, the call ends as one that falls behind its last statement.
  have hnone : ∀ w', Turns a (.ended (.ok none) w'.forgetReturn) (.next a.leave w') := by
    intro w'
    refine .inr ⟨_, _, rfl, a.current?_leave, ?_⟩
    simp only [Activation.finish, Activation.leave, Activation.goto, hr, Conclusion.toOutcome]
  unfold Setting.returned Activation.ret
  have hm : (settingOf E call a).memory a.locals w = a.memory w := rfl
  rw [hm]
  cases Scopes.eval (a.memory w).scopes (.parse s.content) with
  | error cycle => exact hnone _
  | ok v? =>
      cases v? with
      | none => exact hnone _
      | some v =>
          dsimp only
          split
          · exact hnone _
          · exact .inr ⟨_, _, rfl, Activation.current?_leave _, rfl⟩

/-- Statement by statement, the machine takes the turn that `perform` asks for (`Turns`); the
statements that call a function take it after the call. -/
theorem perform_turns {s : Statement} (hs : s.form.isBracket = false) (hr : a.result = none) :
    (∃ exit t, (settingOf E call a).perform a.pos s a.locals w = some exit ∧
        (∀ call', E.step call' a s w = some t) ∧ Turns a exit t) ∨
      ∃ actuals, (settingOf E call a).perform a.pos s a.locals w =
          (call s.content actuals w).map ((settingOf E call a).afterCall a.locals) ∧
        ∀ call', E.step call' a s w =
          (call' s.content actuals w).map fun o => E.resume a o.result o.world := by
  have hm : (settingOf E call a).memory a.locals w = a.memory w := rfl
  unfold Setting.perform step
  rw [hm]
  cases hform : s.form with
  | callInstruction =>
      dsimp only
      cases (a.memory w).actuals s with
      | error e => exact .inl ⟨_, _, rfl, fun _ => rfl, rfl⟩
      | ok actuals => exact .inl ⟨_, _, rfl, fun _ => rfl, Turns.resumed _⟩
  | callFunction =>
      dsimp only
      cases (a.memory w).actuals s with
      | error e => exact .inl ⟨_, _, rfl, fun _ => rfl, rfl⟩
      | ok actuals => exact .inr ⟨actuals, rfl, fun _ => rfl⟩
  | ret => exact .inl ⟨_, _, rfl, fun _ => rfl, Turns.returned hr⟩
  | setVar => exact .inl ⟨_, _, rfl, fun _ => rfl, Turns.assigned ..⟩
  | setLocal => exact .inl ⟨_, _, rfl, fun _ => rfl, Turns.assigned ..⟩
  | setGlobal => exact .inl ⟨_, _, rfl, fun _ => rfl, Turns.assigned ..⟩
  | loop => simp [hform, Form.isBracket] at hs
  | endLoop => simp [hform, Form.isBracket] at hs

/-- To `follow` a turn comes to what the end of the block `Leads` to. -/
theorem Turns.exists_follow {exit : Exit} {t : Turn} (h : Turns a exit t) {fuel : Nat}
    {o : Outcome} (hl : E.Leads depth (fun locals => { a with locals }.advance) fuel exit o) :
    ∃ n, E.follow n depth t = some o := by
  cases exit with
  | through locals w =>
      obtain ⟨n, -, hrun⟩ := hl
      cases h
      exact ⟨n, hrun⟩
  | concluded c =>
      obtain ⟨f, w, rfl, hc⟩ | ⟨a', w, rfl, hover, hc⟩ := h
      · exact ⟨0, congrArg some (hc.symm.trans hl)⟩
      · exact ⟨1, (run_of_over hover 0).trans (congrArg some (hc.symm.trans hl))⟩

/-- What is found by following a turn is what the end of the block `Leads` to. -/
theorem Turns.leads {exit : Exit} {t : Turn} (h : Turns a exit t) {fuel : Nat} {o : Outcome}
    (hrun : E.follow fuel depth t = some o) :
    E.Leads depth (fun locals => { a with locals }.advance) (fuel + 1) exit o := by
  cases exit with
  | through locals w =>
      cases h
      exact ⟨fuel, Nat.le_succ fuel, hrun⟩
  | concluded c =>
      obtain ⟨f, w, rfl, hc⟩ | ⟨a', w, rfl, hover, hc⟩ := h
      · exact hc.trans (Option.some.inj hrun)
      · cases fuel with
        | zero => cases hrun
        | succ fuel =>
            rw [follow_next, run_of_over hover] at hrun
            exact hc.trans (Option.some.inj hrun)

end Turns

/-- Structured calls by `call` from some depth have the outcomes of the machine's calls, and the
other way round up to some fuel. -/
structure CallsMatch (E : Engine) (depth : Int) (bound : Nat)
    (call : String → Store → World → Option Conclusion) : Prop where
  toMachine : ∀ name args w c, call name args w = some c →
    ∃ n, E.call n (depth + 1) name args w = some c.toOutcome
  toBlock : ∀ name args w n o, n < bound → E.call n (depth + 1) name args w = some o →
    ∃ c, call name args w = some c ∧ c.toOutcome = o

section Blocks

variable {bound : Nat} {call : String → Store → World → Option Conclusion} {a : Activation}
  {w : World}

/-- The machine simulates `perform` on a statement that is no bracket. -/
theorem simulates_perform {s : Statement} (hcall : CallsMatch E depth bound call)
    (hcur : a.current? = some s) (hs : s.form.isBracket = false) (hr : a.result = none) :
    E.Simulates depth bound ((settingOf E call a).perform a.pos s a.locals w) a w
      fun locals => { a with locals }.advance := by
  rcases perform_turns hs hr with ⟨exit, t, hx, hstep, ht⟩ | ⟨actuals, hx, hstep⟩
  · rw [hx]
    constructor
    · intro exit' fuel o hx' hl
      cases hx'
      obtain ⟨n, hn⟩ := ht.exists_follow hl
      refine ⟨n + 1, ?_⟩
      rw [run_of_current? hcur, hstep]
      exact hn
    · intro n o _ hrun
      cases n with
      | zero => cases hrun
      | succ n =>
          rw [run_of_current? hcur, hstep] at hrun
          exact ⟨exit, rfl, ht.leads hrun⟩
  · rw [hx]
    constructor
    · intro exit fuel o hx' hl
      obtain ⟨c, hc, rfl⟩ := Option.map_eq_some_iff.1 hx'
      obtain ⟨n, hn⟩ := hcall.toMachine _ _ _ c hc
      obtain ⟨m, hm⟩ := (Turns.afterCall c).exists_follow hl
      -- One fuel for the call and for what follows it.
      refine ⟨max n m + 1, ?_⟩
      rw [run_of_current? hcur, hstep, call_mono (Nat.le_max_left n m) hn]
      exact follow_mono (Nat.le_max_right n m) hm
    · intro n o hn hrun
      cases n with
      | zero => cases hrun
      | succ n =>
          rw [run_of_current? hcur, hstep] at hrun
          obtain ⟨t, ht, hfollow⟩ := Option.bind_eq_some_iff.1 hrun
          obtain ⟨o', ho', rfl⟩ := Option.map_eq_some_iff.1 ht
          obtain ⟨c, hc, rfl⟩ := hcall.toBlock _ _ _ n o' (by omega) ho'
          exact ⟨_, Option.map_eq_some_iff.2 ⟨c, hc, rfl⟩, (Turns.afterCall c).leads hfollow⟩

/-! ### Loops -/

/-- Where all counters are those of loops before `pos`, none is removed for the loop at `pos`.
-/
theorem filter_loops {pos : Nat} {loops : List (Nat × Counter)}
    (h : ∀ l ∈ loops, l.1 < pos) : loops.filter (fun l => decide (l.1 ≠ pos)) = loops := by
  rw [List.filter_eq_self]
  intro l hl
  have hlt := h l hl
  exact decide_eq_true (by omega)

theorem lookup_loops {pos : Nat} {loops : List (Nat × Counter)}
    (h : ∀ l ∈ loops, l.1 < pos) : loops.lookup pos = none := by
  rw [List.lookup_eq_none_iff]
  intro l hl
  have hlt := h l hl
  simpa using (by omega : pos ≠ l.1)

/-- A `pass` does not depend on the counter that its loop has had so far. -/
theorem pass_counter (index : LoopIndex) (c c' : Counter) (locals : Store) :
    ({ a with locals, loops := (a.pos, c') :: a.loops } : Activation).pass index c =
      ({ a with locals } : Activation).pass index c := by
  simp only [Activation.pass, List.filter_cons, ne_eq, not_true_eq_false, decide_false,
    Bool.false_eq_true, if_false]

theorem pass_of_lt {index : LoopIndex} {k n : Int} (h : ∀ l ∈ a.loops, l.1 < a.pos)
    (hk : k < n) (locals : Store) :
    ({ a with locals } : Activation).pass index ⟨k, n⟩ =
      { a with locals, pos := a.pos + 1, loops := (a.pos, ⟨k + 1, n⟩) :: a.loops } := by
  simp only [Activation.pass, filter_loops h, if_pos hk, Activation.advance, Activation.goto]

theorem pass_of_not_lt {index : LoopIndex} {k n : Int} (h : ∀ l ∈ a.loops, l.1 < a.pos)
    (hk : ¬ k < n) (locals : Store) :
    ({ a with locals } : Activation).pass index ⟨k, n⟩ =
      { a with locals, pos := index.partner a.pos + 1 } := by
  simp only [Activation.pass, filter_loops h, if_neg hk, Activation.goto]

/-- The machine makes the passes of a loop that it has begun: from the state
in which it decides about the pass after the first `k` ones, it makes the
other `n - k` and is then behind the loop. -/
theorem simulates_passes {s close : Statement} {index : LoopIndex}
    {body : Store → World → Option Exit} {stop : Nat} {n : Int}
    (hs : s.form = .loop) (hc : close.form = .endLoop) (hopen : a.current? = some s)
    (hclose : a.function.body[stop]? = some close) (hindex : a.function.loopIndex = .ok index)
    (hstart : index.partner stop = a.pos) (hstop : index.partner a.pos = stop)
    (hloops : ∀ l ∈ a.loops, l.1 < a.pos)
    (hbody : ∀ c locals w, E.Simulates depth bound (body locals w)
      { a with locals, pos := a.pos + 1, loops := (a.pos, c) :: a.loops } w
      fun locals => { a with locals, pos := stop, loops := (a.pos, c) :: a.loops })
    (k : Int) (locals : Store) (w : World) :
    E.Simulates depth bound (Exit.passes body (n - k).toNat locals w)
      (({ a with locals } : Activation).pass index ⟨k, n⟩) w
      fun locals => { a with locals, pos := stop + 1 } := by
  -- The induction is on the number of passes that are left.
  generalize hr : (n - k).toNat = r
  induction r generalizing k locals w with
  | zero =>
      have hk : ¬ k < n := by omega
      rw [pass_of_not_lt hloops hk, hstop]
      exact .through rfl
  | succ r ih =>
      have hk : k < n := by omega
      rw [pass_of_lt hloops hk]
      refine .andThen (hbody _ locals w) fun locals w => ?_
      -- Behind the body: back to the opening statement, which finds its counter.
      have hback : ∀ call, E.step call
          { a with locals, pos := stop, loops := (a.pos, ⟨k + 1, n⟩) :: a.loops } close w =
            some (.next { a with locals, loops := (a.pos, ⟨k + 1, n⟩) :: a.loops } w) := by
        intro call
        simp only [step, hc, Activation.withIndex, hindex, hstart, Activation.goto]
      have hagain : ∀ call, E.step call
          { a with locals, loops := (a.pos, ⟨k + 1, n⟩) :: a.loops } s w =
            some (.next (({ a with locals } : Activation).pass index ⟨k + 1, n⟩) w) := by
        intro call
        simp only [step, hs, Activation.withIndex, hindex, Activation.loop,
          List.lookup_cons_self, pass_counter]
      exact .next hclose hback (.next hopen hagain (ih (k + 1) locals w (by omega)))

/-- What `step` does at a loop that is not being run: it is left out with a message, refused, or
entered for its first pass. -/
theorem step_loop {s : Statement} {index : LoopIndex} (hs : s.form = .loop)
    (hindex : a.function.loopIndex = .ok index) (hloops : ∀ l ∈ a.loops, l.1 < a.pos)
    (call' : String → Store → World → Option Outcome) :
    E.step call' a s w = some (match Activation.loopCount (a.memory w) s with
      | .error e => .next (a.goto (index.partner a.pos + 1))
          (w.log .error (a.describe .loop (Setting.countText e)))
      | .ok n =>
          if Numeral.writable n then .next (a.pass index ⟨0, n⟩) w else .stop .unwritable w) := by
  simp only [step, hs, Activation.withIndex, hindex, Activation.loop, lookup_loops hloops]
  rfl

/-- The machine executes a loop that it stands at, if it executes the `body` and what follows
the loop. -/
theorem simulates_loop {s close : Statement} {hs : s.form = .loop} {hc : close.form = .endLoop}
    {body rest : Block} {a : Activation} {w : World}
    (hb : (Block.loop s hs body close hc rest).Placed a.function a.pos)
    (hloops : ∀ l ∈ a.loops, l.1 < a.pos)
    (hbody : ∀ c locals w, E.Simulates depth bound
      (body.run (settingOf E call a) (a.pos + 1) locals w)
      { a with locals, pos := a.pos + 1, loops := (a.pos, c) :: a.loops } w
      fun locals => { a with locals, pos := a.pos + body.size + 1,
                             loops := (a.pos, c) :: a.loops })
    (hrest : ∀ locals w, E.Simulates depth bound
      (rest.run (settingOf E call a) (a.pos + body.size + 2) locals w)
      { a with locals, pos := a.pos + body.size + 2 } w
      fun locals => { a with locals, pos := a.pos + body.size + 2 + rest.size }) :
    E.Simulates depth bound
      ((Block.loop s hs body close hc rest).run (settingOf E call a) a.pos a.locals w) a w
      fun locals => { a with locals, pos := a.pos + body.size + 2 + rest.size } := by
  obtain ⟨index, hindex, hstop, hstart⟩ := hb.loop_jumps
  have hstep := step_loop (E := E) (w := w) hs hindex hloops
  have hm : (settingOf E call a).memory a.locals w = a.memory w := rfl
  rw [Block.run, hm]
  -- the number of passes is found once, before the first of them
  cases hn : Activation.loopCount (a.memory w) s with
  | error e =>
      simp only [hn, hstop] at hstep
      exact .next hb.loop_current hstep (hrest a.locals _)
  | ok n =>
      simp only [hn] at hstep ⊢
      rw [admits_settingOf]
      cases hw : Numeral.writable n with
      | true =>
          simp only [hw, if_true] at hstep ⊢
          have hpass := simulates_passes (n := n) hs hc hb.loop_current hb.loop_close hindex
            hstart hstop hloops hbody 0 a.locals w
          rw [Int.sub_zero] at hpass
          exact .next hb.loop_current hstep (.andThen hpass hrest)
      | false =>
          simp only [hw, Bool.false_eq_true, if_false] at hstep ⊢
          exact .stop hb.loop_current hstep rfl

/-- The machine executes the block that it stands at (`Placed`), if all counters are those of
loops around the block. -/
theorem simulates_block (hcall : CallsMatch E depth bound call) (b : Block) (a : Activation)
    (w : World) (hb : b.Placed a.function a.pos) (hloops : ∀ l ∈ a.loops, l.1 < a.pos)
    (hr : a.result = none) :
    E.Simulates depth bound (b.run (settingOf E call a) a.pos a.locals w) a w
      fun locals => { a with locals, pos := a.pos + b.size } := by
  induction b generalizing a w with
  | done => exact .through rfl
  | plain s hs rest ih =>
      have hpos : a.pos + (rest.size + 1) = a.pos + 1 + rest.size := by omega
      rw [Block.size_plain, hpos]
      refine .andThen (simulates_perform hcall hb.plain_current hs hr) fun locals w => ?_
      refine ih { a with locals }.advance w hb.plain_rest (fun l hl => ?_) hr
      exact Nat.lt_succ_of_lt (hloops l hl)
  | loop s hs body close hc rest ihb ihr =>
      have hpos : a.pos + (body.size + rest.size + 2) = a.pos + body.size + 2 + rest.size := by
        omega
      rw [Block.size_loop, hpos]
      refine simulates_loop hb hloops ?_ ?_
      · -- inside the body, the counter of this loop is one of those around
        intro c locals w
        have hsize : a.pos + body.size + 1 = a.pos + 1 + body.size := by omega
        rw [hsize]
        refine ihb { a with locals, pos := a.pos + 1, loops := (a.pos, c) :: a.loops } w
          hb.loop_body ?_ hr
        intro l hl
        rcases List.mem_cons.1 hl with rfl | hl
        · exact Nat.lt_succ_self a.pos
        · exact Nat.lt_succ_of_lt (hloops l hl)
      · intro locals w
        refine ihr { a with locals, pos := a.pos + body.size + 2 } w hb.loop_rest ?_ hr
        intro l hl
        have hlt := hloops l hl
        exact Nat.lt_of_lt_of_le hlt (show a.pos ≤ a.pos + body.size + 2 by omega)

end Blocks

/-! ### Functions -/

/-- Behind the block of its `outline`, a call is over: normally, or by the fault of loops that
do not pair up. -/
theorem run_behind_outline (f : Function) (args locals : Store) (w : World) (n : Nat) :
    E.run (n + 1) depth { Activation.start f args with locals, pos := f.outline.1.size } w =
      some ((Exit.through locals w).conclude f.outline.2).toOutcome := by
  unfold Function.outline
  cases hp : Block.parse? f.body with
  | some b =>
      have hsize : f.body.length = b.size := by rw [← Block.parse?_eq_some_iff.1 hp]; rfl
      exact run_of_over (List.getElem?_eq_none (Nat.le_of_eq hsize)) n
  | none =>
      obtain ⟨e, he⟩ := Block.loopIndex_of_parse?_none hp
      obtain ⟨s, hget, hs⟩ := Block.bracket_of_parse?_none hp
      have hcur : Activation.current? { Activation.start f args with
          locals, pos := (Block.leading f.body).size } = some s := hget
      rw [he]
      dsimp only
      rw [run_of_current? hcur]
      -- the first bracket asks for the loop index, and there is none
      cases hform : s.form with
      | loop =>
          simp only [step, hform, Activation.withIndex, Activation.start, he]
          rfl
      | endLoop =>
          simp only [step, hform, Activation.withIndex, Activation.start, he]
          rfl
      | _ => simp [hform, Form.isBracket] at hs

theorem placed_outline (f : Function) : f.outline.1.Placed f 0 := by
  unfold Function.outline
  cases hp : Block.parse? f.body with
  | some b => exact Block.placed_of_parse? hp
  | none => cases f.loopIndex <;> exact Block.placed_leading f

/-- Structured execution of functions by `interpret` has the outcomes of the machine, and the
other way round up to a fuel of `levels`. -/
def Matches (E : Engine) (levels : Nat) : Prop :=
  ∀ (depth : Int) (f : Function) (args : Store) (w : World),
    (∀ c, E.interpret Numeral.writable levels depth f args w = some c →
      ∃ n, E.run n depth (.start f args) w = some c.toOutcome) ∧
    ∀ n o, n ≤ levels → E.run n depth (.start f args) w = some o →
      ∃ c, E.interpret Numeral.writable levels depth f args w = some c ∧ c.toOutcome = o

theorem Matches.calls {levels : Nat} (h : E.Matches levels) (depth : Int) :
    CallsMatch E depth (levels + 1) (E.interpretCall Numeral.writable levels (depth + 1)) := by
  unfold interpretCall
  constructor
  · intro name args w c hc
    simp only [call_eq]
    cases hf : E.entry (depth + 1) name w with
    | error o =>
        simp only [hf, Option.some.injEq] at hc
        exact ⟨0, congrArg (some ·.toOutcome) hc⟩
    | ok f =>
        simp only [hf] at hc
        exact (h (depth + 1) f args _).1 c hc
  · intro name args w n o hn ho
    rw [call_eq] at ho
    cases hf : E.entry (depth + 1) name w with
    | error o' =>
        simp only [hf, Option.some.injEq] at ho
        exact ⟨.outcome o', rfl, ho⟩
    | ok f =>
        simp only [hf] at ho
        exact (h (depth + 1) f args _).2 n o (by omega) ho

/-- They match at all `levels`, by induction, since a level less is left for calls. -/
theorem interpret_matches (levels : Nat) : E.Matches levels := by
  induction levels with
  | zero =>
      intro depth f args w
      constructor
      · intro c h
        cases h
      · intro n o hn hrun
        rw [Nat.le_zero.1 hn] at hrun
        cases hrun
  | succ levels ih =>
      intro depth f args w
      -- the block of the function, from its first statement to the position behind it
      have hblock := simulates_block (ih.calls depth) f.outline.1 (.start f args) w
        (placed_outline f) (fun l hl => absurd hl List.not_mem_nil) rfl
      rw [show (Activation.start f args).pos = 0 from rfl, Nat.zero_add] at hblock
      constructor
      · intro c hc
        obtain ⟨exit, hx, rfl⟩ := Option.map_eq_some_iff.1 hc
        refine hblock.toMachine exit 1 _ hx ?_
        cases exit with
        | through locals w' => exact ⟨1, Nat.le_refl 1, run_behind_outline f args locals w' 0⟩
        | concluded c => rfl
      · intro n o hn hrun
        obtain ⟨exit, hx, hl⟩ := hblock.toBlock n o hn hrun
        refine ⟨_, Option.map_eq_some_iff.2 ⟨exit, hx, rfl⟩, ?_⟩
        cases exit with
        | through locals w' =>
            obtain ⟨m, -, hm⟩ := hl
            cases m with
            | zero => cases hm
            | succ m =>
                rw [run_behind_outline] at hm
                exact Option.some.inj hm
        | concluded c => exact hl

/-! ### The reference -/

/-- Structured execution by `executeBlock` in which every number of passes is admitted. -/
def reference (E : Engine) (levels : Nat) (depth : Int) (f : Function) (b : Block)
    (args : Store) (w : World) : Option Outcome :=
  (E.executeBlock (fun _ => true) levels depth f b args w).map Conclusion.toOutcome

/-- The machine executes a function that is `Balanced` as the block of its body says, up to the
first loop whose number of passes is too long to be written; there it ends. Without such a loop
it has the outcomes of the `reference`, and no others. -/
theorem execute_iff_reference (E : Engine) (depth : Int) (f : Function) (args : Store) (w : World)
    (hb : Balanced (f.body.map (·.form))) :
    ∃ b, Block.parse? f.body = some b ∧
      (∀ o, (∃ fuel, E.execute fuel depth f args w = some o) ↔
        (∃ levels, E.executeBlock Numeral.writable levels depth f b args w = some (.outcome o) ∧
          E.reference levels depth f b args w = some o) ∨
        ∃ levels n w', E.executeBlock Numeral.writable levels depth f b args w =
            some (.refused n w') ∧
          Numeral.writable n = false ∧ o = ⟨.error .unwritable, w'⟩) ∧
      ∀ levels o, E.reference levels depth f b args w = some o →
        (∃ fuel, E.execute fuel depth f args w = some o) ∨
        ∃ n w', E.executeBlock Numeral.writable levels depth f b args w = some (.refused n w') ∧
          Numeral.writable n = false := by
  obtain ⟨b, hb⟩ := Block.balanced_iff_parse?.1 hb
  -- Structured execution with the limit has the outcomes of the machine ...
  have hmachine : ∀ levels,
      (∀ c, E.executeBlock Numeral.writable levels depth f b args w = some c →
        ∃ n, E.execute n depth f args w = some c.toOutcome) ∧
      ∀ n o, n ≤ levels + 1 → E.execute n depth f args w = some o →
        ∃ c, E.executeBlock Numeral.writable levels depth f b args w = some c ∧
          c.toOutcome = o := by
    intro levels
    rw [← interpret_of_parse? hb]
    exact interpret_matches (levels + 1) depth f args w.forgetReturn
  -- ... and those of the reference, unless a loop is refused.
  have hagree : ∀ levels, AgreeUnlessRefused Numeral.writable Conclusion.refused
      (E.executeBlock Numeral.writable levels depth f b args w)
      (E.executeBlock (fun _ => true) levels depth f b args w) := by
    intro levels
    rw [← interpret_of_parse? hb, ← interpret_of_parse? hb]
    exact interpret_agree (fun _ _ => rfl) (levels + 1) depth f args w.forgetReturn
  refine ⟨b, hb, fun o => ⟨?_, ?_⟩, ?_⟩
  · intro h
    rcases h with ⟨fuel, hrun⟩
    obtain ⟨c, hc, rfl⟩ := (hmachine fuel).2 fuel o (Nat.le_succ fuel) hrun
    rcases hagree fuel with ⟨heq, hne⟩ | ⟨n, w', hr, hn⟩
    · cases c with
      | outcome o => exact .inl ⟨fuel, hc, by rw [reference, ← heq, hc]; rfl⟩
      | refused n w' => exact absurd hc (hne n w')
    · rw [hr] at hc
      cases hc
      exact .inr ⟨fuel, n, w', hr, hn, rfl⟩
  · intro h
    rcases h with ⟨levels, hc, -⟩ | ⟨levels, n, w', hr, -, rfl⟩
    · exact (hmachine levels).1 _ hc
    · exact (hmachine levels).1 _ hr
  · intro levels o ho
    rcases hagree levels with ⟨heq, -⟩ | ⟨n, w', hr, hn⟩
    · obtain ⟨c, hc, rfl⟩ := Option.map_eq_some_iff.1 ho
      exact .inl ((hmachine levels).1 c (heq.trans hc))
    · exact .inr ⟨n, w', hr, hn⟩

/-- A loop in a loop, with a statement that counts the passes of the inner one in `k`. -/
def nestedLoops : Function :=
  .make "f" [] [.loop ⟨"int", "2"⟩ "", .loop ⟨"var", "n"⟩ "",
    .setVar "k" "+=" ⟨"int", "1"⟩ "" ⟨"", ""⟩ "", .endLoop "", .endLoop "", .ret "var:k" ""] ""

/-- A world in which `nestedLoops` makes three passes of its inner loop. -/
def threeAtATime : World := ⟨.ofList [("n", ⟨"int", "3"⟩), ("k", ⟨"int", "0"⟩)], #[]⟩

/-- Six passes of `nestedLoops` are made and counted, in the `reference` and so in the machine.
-/
theorem execute_iff_reference_nestedLoops :
    Balanced (nestedLoops.body.map (·.form)) ∧
      ∃ b o, Block.parse? nestedLoops.body = some b ∧
        ({} : Engine).reference 0 0 nestedLoops b {} threeAtATime = some o ∧
        o.result = .ok (some ⟨"int", "6"⟩) ∧
        ∃ fuel, ({} : Engine).execute fuel 0 nestedLoops {} threeAtATime = some o := by
  have hb : Balanced (nestedLoops.body.map (·.form)) :=
    @Balanced.loop [.loop, .setVar, .endLoop] [.ret]
      (@Balanced.loop [.setVar] [] (.plain rfl .nil) .nil) (.plain rfl .nil)
  have hrun : (Block.parse? nestedLoops.body).bind (fun b =>
      (({} : Engine).reference 0 0 nestedLoops b {} threeAtATime).map (·.result)) =
        some (.ok (some ⟨"int", "6"⟩)) := by
    decide +kernel
  have hadmitted : (Block.parse? nestedLoops.body).bind (fun b =>
      (({} : Engine).executeBlock Numeral.writable 0 0 nestedLoops b {} threeAtATime).map
        (·.toOutcome.result)) = some (.ok (some ⟨"int", "6"⟩)) := by
    decide +kernel
  obtain ⟨b, hparse, -, h⟩ := execute_iff_reference {} 0 nestedLoops {} threeAtATime hb
  rw [hparse, Option.bind_some] at hrun hadmitted
  obtain ⟨o, ho, hresult⟩ := Option.map_eq_some_iff.1 hrun
  refine ⟨hb, b, o, hparse, ho, hresult, ?_⟩
  rcases h 0 o ho with hfuel | ⟨n, w', hrefused, -⟩
  · exact hfuel
  · -- a refused number of passes would have been no result
    rw [hrefused] at hadmitted
    cases hadmitted

/-! ### A number of passes that is too long -/

/-- The `loopCount` of a loop whose count is a literal. -/
theorem loopCount_loop (m : Memory) {v : Tagged} (hvar : v.isVar = false)
    (hempty : v.isEmpty = false) (note : String) :
    Activation.loopCount m (.loop v note) = (Numeral.parse v.payload).mapError .numeral := by
  have hget : (Statement.loop v note).args.get? Statement.countArg = some v := by
    simp [Statement.loop, Store.get?_set, hempty]
  simp [Activation.loopCount, Memory.arg, hget, Memory.eval, Scopes.eval, hvar]

/-- A loop of `count` passes without a body. -/
def emptyLoop (count : Tagged) : Function :=
  .make "f" [] [.loop count "", .endLoop ""] ""

/-- Where a loop is to make a negative number of passes and the number is not `writable`, the
`reference` makes no pass and comes to the end, and the machine ends at the loop. -/
theorem execute_emptyLoop {v : Tagged} {n : Int} (hvar : v.isVar = false)
    (hempty : v.isEmpty = false) (hparse : Numeral.parse v.payload = .ok n) (hn : n ≤ 0)
    (hw : Numeral.writable n = false) :
    ∃ b, Block.parse? (emptyLoop v).body = some b ∧
      ({} : Engine).reference 0 0 (emptyLoop v) b {} ⟨{}, #[]⟩ =
        some ⟨.ok none, (World.forgetReturn ⟨{}, #[]⟩).forgetReturn⟩ ∧
      ({} : Engine).execute 1 0 (emptyLoop v) {} ⟨{}, #[]⟩ =
        some ⟨.error .unwritable, World.forgetReturn ⟨{}, #[]⟩⟩ := by
  have hcount : ∀ m, Activation.loopCount m (.loop v "") = .ok n := fun m => by
    rw [loopCount_loop m hvar hempty, hparse]
    rfl
  refine ⟨.loop (.loop v "") rfl .done (.endLoop "") rfl .done,
    Block.parse?_eq_some_iff.2 rfl, ?_, ?_⟩
  · -- no pass is made of a loop with a negative number of passes
    rw [reference, executeBlock]
    simp only [Block.run, hcount, Int.toNat_of_nonpos hn, if_true]
    rfl
  · have hcur : (Activation.start (emptyLoop v) {}).current? = some (.loop v "") := rfl
    have hindex : (Activation.start (emptyLoop v) {}).function.loopIndex = .ok ⟨[(0, 1)]⟩ := rfl
    have hloops : ∀ l ∈ (Activation.start (emptyLoop v) {}).loops, l.1 < 0 :=
      fun l hl => absurd hl List.not_mem_nil
    rw [execute, run_of_current? hcur, step_loop rfl hindex hloops, hcount]
    simp only [hw, Bool.false_eq_true, if_false]
    rfl

/-- A hex literal of a negative number that is not `writable`. -/
def longCount : Tagged :=
  ⟨Kind.int.tag, String.ofList (Numeral.hexLiteral true (Numeral.hexPower Numeral.longZeros))⟩

/-- The machine and the `reference` part at a loop whose count is `longCount`. -/
theorem execute_longCount_ne_reference :
    ∃ b, Block.parse? (emptyLoop longCount).body = some b ∧
      ({} : Engine).reference 0 0 (emptyLoop longCount) b {} ⟨{}, #[]⟩ =
        some ⟨.ok none, (World.forgetReturn ⟨{}, #[]⟩).forgetReturn⟩ ∧
      ({} : Engine).execute 1 0 (emptyLoop longCount) {} ⟨{}, #[]⟩ =
        some ⟨.error .unwritable, World.forgetReturn ⟨{}, #[]⟩⟩ :=
  execute_emptyLoop rfl rfl (Numeral.parse_hexPower true Numeral.longZeros)
    (Int.neg_nonpos_of_nonneg (Int.natCast_nonneg _)) (Numeral.not_writable_longZeros true)

end Engine

end BusScript
