import BusScript.Proofs.Action
import BusScript.Proofs.Escape
import BusScript.Proofs.Pairing

/-!
# How often a loop runs its body

A loop reads its count once, when it is entered, and counts its passes in the
call. Nothing but the loop itself touches that counter, so the number of passes
is settled at the entry, whatever the body assigns, calls or nests: the loop
makes that many passes, or the body quits in one of them. `Loops` says so in
terms of steps, without counters.

* `crosses_block` — a call that stands at a block comes behind it or quits
  inside, by induction on blocks;
* `loops_of_pass` — a loop that is about to start a pass makes the passes that
  are left, by induction on their number;
* `Loops.unique` — unless the body quits, a loop has one number of passes.

The count is read off the **payload** alone. An integer field that is given the
same value reads it by its tag, and under the tag of hex texts the two readings
part (`loops_of_count`): `hex:10` is sixteen on the wire and ten passes.
-/

namespace BusScript

open Relation (ReflTransGen)

/-- The position of the next statement of `c.activation`. -/
abbrev Configuration.pos (c : Configuration) : Nat := c.activation.pos

/-- A call of the function `f` stands at the position `pos`. -/
structure Configuration.At (c : Configuration) (f : Function) (pos : Nat) : Prop where
  function : c.activation.function = f
  pos : c.activation.pos = pos

theorem Configuration.At.current? {c : Configuration} {f : Function} {pos : Nat}
    (h : c.At f pos) : c.activation.current? = f.body[pos]? := by
  rw [Activation.current?, h.function, h.pos]

namespace Engine

/-- One `step` of a call is taken, with all that the statement calls, and the call goes on. -/
inductive Steps (E : Engine) : Configuration → Configuration → Prop
  | next {depth : Int} {a a' : Activation} {w w' : World} {s : Statement} {fuel : Nat}
      (hs : a.current? = some s)
      (hstep : E.step (E.call fuel (depth + 1)) a s w = some (.next a' w')) :
      Steps E ⟨depth, a, w⟩ ⟨depth, a', w'⟩

/-- A step from a position between `lo` and `hi`, the latter excluded. -/
structure StepsWithin (E : Engine) (lo hi : Nat) (c c' : Configuration) : Prop where
  low : lo ≤ c.pos
  high : c.pos < hi
  steps : E.Steps c c'

/-- A path whose steps are all `StepsWithin` an interval. -/
abbrev Along (E : Engine) (lo hi : Nat) : Configuration → Configuration → Prop :=
  ReflTransGen (E.StepsWithin lo hi)

/-- A call ends at its next statement, or never gets behind it. -/
inductive Quits (E : Engine) (c : Configuration) : Prop
  /-- The statement is a `ret`. -/
  | returns {s : Statement} (hs : c.activation.current? = some s) (hform : s.form = .ret)
  /-- The statement ends the call by a fault. -/
  | raises {s : Statement} {fuel : Nat} {f : Failure Fault} {w : World}
      (hs : c.activation.current? = some s)
      (hstep : E.step (E.call fuel (c.depth + 1)) c.activation s c.world = some (.stop f w))
  /-- The statement calls a function whose calls are nested without bound, so that no stack
  holds them: it `Visits` every depth. -/
  | overflows {s : Statement} (hs : c.activation.current? = some s)
      (hstep : ∀ fuel, E.step (E.call fuel (c.depth + 1)) c.activation s c.world = none)
      (hdeep : ∀ bound : Int, ∃ d, E.Visits c d ∧ bound < d.depth)

/-- A call `Quits` at a position in an interval, having stayed in it. -/
inductive QuitsWithin (E : Engine) (lo hi : Nat) (c : Configuration) : Prop
  | mk {q : Configuration} (hpath : E.Along lo hi c q) (hlo : lo ≤ q.pos) (hhi : q.pos < hi)
      (hquit : E.Quits q)

/-- One pass of the loop that opens at `start` and closes at `stop`: into the
body, through it, and back from its end. -/
inductive Pass (E : Engine) (start stop : Nat) (c c' : Configuration) : Prop
  | mk {first last : Configuration} (hopen : c.pos = start) (henter : E.Steps c first)
      (hfirst : first.pos = start + 1) (hbody : E.Along (start + 1) stop first last)
      (hlast : last.pos = stop) (hback : E.Steps last c') (hagain : c'.pos = start)

/-- A number of passes (`Pass`) of a loop, one after the other. -/
inductive Passes (E : Engine) (start stop : Nat) :
    Nat → Configuration → Configuration → Prop
  | zero (c : Configuration) : Passes E start stop 0 c c
  | succ {k : Nat} {c c' c'' : Configuration} (hpass : E.Pass start stop c c')
      (h : Passes E start stop k c' c'') : Passes E start stop (k + 1) c c''

/-- A loop makes `count` passes and is left, or its body quits in one of them (`QuitsWithin`).
-/
inductive Loops (E : Engine) (start stop count : Nat) (c : Configuration) : Prop
  | through {last behind : Configuration} (hpasses : E.Passes start stop count c last)
      (hleave : E.Steps last behind) (hbehind : behind.pos = stop + 1)
  | broken {k : Nat} {last first : Configuration} (hk : k < count)
      (hpasses : E.Passes start stop k c last) (henter : E.Steps last first)
      (hfirst : first.pos = start + 1) (hquit : E.QuitsWithin (start + 1) stop first)

variable {E : Engine} {lo hi start stop : Nat} {c c' c'' : Configuration}

/-! ### A loop has one number of passes -/

/-- A call has one next configuration, since more fuel changes nothing. -/
theorem Steps.unique (h : E.Steps c c') (h' : E.Steps c c'') : c' = c'' := by
  cases h with
  | next hs hstep =>
      cases h' with
      | next hs' hstep' =>
          cases hs.symm.trans hs'
          cases step_unique hstep hstep'
          rfl

theorem StepsWithin.unique : Relator.RightUnique (E.StepsWithin lo hi) :=
  fun _ _ _ h h' => h.steps.unique h'.steps

/-- A path that has come to `hi`, the end of its interval, is over. -/
theorem Along.eq_of_pos (h : E.Along lo hi c c') (hpos : c.pos = hi) : c' = c := by
  cases h.cases_head with
  | inl heq => exact heq.symm
  | inr hnext =>
      obtain ⟨d, hstep, -⟩ := hnext
      exact absurd hstep.high (by omega)

theorem Along.unique (h : E.Along lo hi c c') (h' : E.Along lo hi c c'') (hpos : c'.pos = hi)
    (hpos' : c''.pos = hi) : c' = c'' := by
  rcases ReflTransGen.total_of_right_unique StepsWithin.unique h h' with hpath | hpath
  · exact (Along.eq_of_pos hpath hpos).symm
  · exact Along.eq_of_pos hpath hpos'

theorem Pass.unique (h : E.Pass start stop c c') (h' : E.Pass start stop c c'') : c' = c'' := by
  obtain ⟨-, henter, -, hbody, hlast, hback, -⟩ := h
  obtain ⟨-, henter', -, hbody', hlast', hback', -⟩ := h'
  cases henter.unique henter'
  cases hbody.unique hbody' hlast hlast'
  exact hback.unique hback'

/-- Where a loop stands after fewer `Passes` than it makes, it starts another one. -/
theorem Passes.pass_of_lt {j k : Nat} (h : E.Passes start stop j c c')
    (h' : E.Passes start stop k c c'') (hlt : j < k) : ∃ d, E.Pass start stop c' d := by
  induction h generalizing k with
  | zero c =>
      cases h' with
      | zero => omega
      | succ hpass _ => exact ⟨_, hpass⟩
  | succ hpass _ ih =>
      cases h' with
      | zero => omega
      | succ hpass' h' =>
          cases hpass.unique hpass'
          exact ih h' (by omega)

/-- A loop that is left after `j` passes makes no more of them. -/
theorem Passes.le_of_leave {j k : Nat} (hlt : start < stop) (h : E.Passes start stop j c c')
    {behind : Configuration} (hleave : E.Steps c' behind) (hbehind : behind.pos = stop + 1)
    (h' : E.Passes start stop k c c'') : k ≤ j := by
  by_contra hjk
  obtain ⟨d, hpass⟩ := h.pass_of_lt h' (by omega)
  obtain ⟨-, henter, hfirst, -⟩ := hpass
  cases henter.unique hleave
  omega

/-- Unless its body quits, `Loops` holds of a loop for one number of passes only. -/
theorem Loops.unique {n m : Nat} (hlt : start < stop)
    (hbody : ∀ first, ¬ E.QuitsWithin (start + 1) stop first) (h : E.Loops start stop n c)
    (h' : E.Loops start stop m c) : n = m := by
  cases h with
  | broken _ _ _ _ hquit => exact absurd hquit (hbody _)
  | through hpasses hleave hbehind =>
      cases h' with
      | broken _ _ _ _ hquit => exact absurd hquit (hbody _)
      | through hpasses' hleave' hbehind' =>
          have hmn := hpasses.le_of_leave hlt hleave hbehind hpasses'
          have hnm := hpasses'.le_of_leave hlt hleave' hbehind' hpasses
          omega

end Engine

/-! ### What a step does to positions and counters -/

namespace Activation

variable {a : Activation} {index : LoopIndex}

@[simp] theorem function_pass (a : Activation) (index : LoopIndex) (n : Counter) :
    (a.pass index n).function = a.function := by
  unfold pass
  dsimp only
  split <;> rfl

theorem pos_pass_of_lt {k n : Int} (h : k < n) : (a.pass index ⟨k, n⟩).pos = a.pos + 1 := by
  rw [pass, if_pos h]
  rfl

theorem pos_pass_of_le {k n : Int} (h : n ≤ k) :
    (a.pass index ⟨k, n⟩).pos = index.partner a.pos + 1 := by
  rw [pass, if_neg (by simpa using h)]
  rfl

theorem lookup_pass_of_lt {k n : Int} (h : k < n) :
    (a.pass index ⟨k, n⟩).loops.lookup a.pos = some ⟨k + 1, n⟩ := by
  rw [pass, if_pos h]
  exact List.lookup_cons_self

theorem lookup_filter_of_ne {x pos : Nat} (hx : x ≠ pos) (loops : List (Nat × Counter)) :
    (loops.filter (·.1 ≠ pos)).lookup x = loops.lookup x := by
  induction loops with
  | nil => rfl
  | cons l loops ih =>
      obtain ⟨y, n⟩ := l
      by_cases hy : y = pos
      · have hxy : (x == y) = false := by simpa [hy] using hx
        rw [List.filter_cons_of_neg (by simpa using hy), ih, List.lookup_cons, hxy]
      · rw [List.filter_cons_of_pos (by simpa using hy), List.lookup_cons, List.lookup_cons, ih]

/-- To start or end a `pass` leaves the counters of other loops alone. -/
theorem lookup_pass_of_ne {x : Nat} (hx : x ≠ a.pos) (index : LoopIndex) (n : Counter) :
    (a.pass index n).loops.lookup x = a.loops.lookup x := by
  unfold pass
  dsimp only
  split
  · have hbeq : (x == a.pos) = false := by simpa using hx
    rw [← lookup_filter_of_ne hx a.loops]
    simp only [advance, goto, List.lookup_cons, hbeq]
  · exact lookup_filter_of_ne hx a.loops

theorem lookup_loop_of_ne {x : Nat} {s : Statement} {w w' : World} {a' : Activation}
    (hx : x ≠ a.pos) (h : a.loop s w index = .next a' w') :
    a'.loops.lookup x = a.loops.lookup x := by
  unfold loop at h
  split at h
  · cases h
    exact lookup_pass_of_ne hx index _
  · split at h
    · cases h
      rfl
    · split at h
      · cases h
        exact lookup_pass_of_ne hx index _
      · cases h

theorem next_of_withIndex {go : LoopIndex → Turn} {w w' : World} {a' : Activation}
    (h : a.withIndex w go = .next a' w') :
    ∃ index, a.function.loopIndex = .ok index ∧ go index = .next a' w' := by
  unfold withIndex at h
  split at h
  · exact ⟨_, ‹_›, h⟩
  · cases h

theorem next_of_commit {form : Form} {m? : Except (Failure BindingError) Memory} {w w' : World}
    {a' : Activation} (h : a.commit form w m? = .next a' w') :
    a' = { a with locals := a'.locals }.advance := by
  unfold commit at h
  split at h <;> cases h <;> rfl

theorem next_of_ret {s : Statement} {w w' : World} {a' : Activation}
    (h : a.ret s w = .next a' w') : a'.loops = a.loops := by
  unfold ret at h
  split at h
  · cases h
    rfl
  · cases h
    rfl
  · split at h <;> cases h <;> rfl

end Activation

namespace Engine

variable {E : Engine} {lo hi start stop : Nat} {c c' c'' : Configuration}

section Step

variable {call : String → Store → World → Option Outcome} {a a' : Activation} {s : Statement}
  {w w' : World}

/-- A statement that is neither a bracket of a loop nor a `ret` is followed by the next one. Of
the state of its call it changes the local variables only. -/
theorem next_of_plain_step (hplain : s.form.isBracket = false) (hret : s.form ≠ .ret)
    (h : E.step call a s w = some (.next a' w')) :
    a' = { a with locals := a'.locals }.advance := by
  unfold step at h
  cases hform : s.form with
  | callInstruction =>
      simp only [hform] at h
      cases hm : (a.memory w).actuals s with
      | error e =>
          rw [hm] at h
          cases h
          rfl
      | ok actuals =>
          rw [hm, Option.some.injEq] at h
          rw [(next_of_resume h.symm).1]
          rfl
  | callFunction =>
      simp only [hform] at h
      cases hm : (a.memory w).actuals s with
      | error e =>
          rw [hm] at h
          cases h
          rfl
      | ok actuals =>
          rw [hm] at h
          obtain ⟨o, -, hresume⟩ := Option.map_eq_some_iff.1 h
          rw [(next_of_resume hresume.symm).1]
          rfl
  | loop => simp [hform, Form.isBracket] at hplain
  | endLoop => simp [hform, Form.isBracket] at hplain
  | ret => exact absurd hform hret
  | setVar =>
      simp only [hform] at h
      exact Activation.next_of_commit (Option.some.inj h)
  | setLocal =>
      simp only [hform] at h
      exact Activation.next_of_commit (Option.some.inj h)
  | setGlobal =>
      simp only [hform] at h
      exact Activation.next_of_commit (Option.some.inj h)

theorem advance_of_step (hplain : s.form.isBracket = false) (hret : s.form ≠ .ret)
    (h : E.step call a s w = some (.next a' w')) :
    a'.pos = a.pos + 1 ∧ a'.loops = a.loops := by
  rw [next_of_plain_step hplain hret h]
  exact ⟨rfl, rfl⟩

/-- A `step` changes no counter but that of its own loop. -/
theorem lookup_of_step {x : Nat} (hx : x ≠ a.pos) (h : E.step call a s w = some (.next a' w')) :
    a'.loops.lookup x = a.loops.lookup x := by
  cases hform : s.form with
  | loop =>
      simp only [step, hform, Option.some.injEq] at h
      obtain ⟨index, -, hloop⟩ := Activation.next_of_withIndex h
      exact Activation.lookup_loop_of_ne hx hloop
  | endLoop =>
      simp only [step, hform, Option.some.injEq] at h
      obtain ⟨index, -, hback⟩ := Activation.next_of_withIndex h
      cases hback
      rfl
  | ret =>
      simp only [step, hform, Option.some.injEq] at h
      rw [Activation.next_of_ret h]
  | _ =>
      have hloops := (advance_of_step (by rw [hform]; rfl) (by simp [hform]) h).2
      rw [hloops]

end Step

theorem Steps.function_eq (h : E.Steps c c') :
    c'.activation.function = c.activation.function := by
  cases h with
  | next hs hstep => exact (action_of_step hstep).function_eq

theorem Steps.lookup_eq {x : Nat} (h : E.Steps c c') (hx : x ≠ c.pos) :
    c'.activation.loops.lookup x = c.activation.loops.lookup x := by
  cases h with
  | next hs hstep => exact lookup_of_step hx hstep

theorem Along.function_eq (h : E.Along lo hi c c') :
    c'.activation.function = c.activation.function := by
  induction h with
  | refl => rfl
  | tail _ hstep ih => exact hstep.steps.function_eq.trans ih

/-- Inside of a loop, `Along` its body, its counter is safe. -/
theorem Along.lookup_eq {x : Nat} (h : E.Along lo hi c c') (hx : x < lo) :
    c'.activation.loops.lookup x = c.activation.loops.lookup x := by
  induction h with
  | refl => rfl
  | tail _ hstep ih =>
      have hlow := hstep.low
      exact (hstep.steps.lookup_eq (by omega)).trans ih

theorem Along.at {f : Function} {p q : Nat} (h : E.Along lo hi c c') (hc : c.At f p)
    (hc' : c'.pos = q) : c'.At f q :=
  ⟨h.function_eq.trans hc.function, hc'⟩

theorem Along.mono {lo' hi' : Nat} (hlo : lo' ≤ lo) (hhi : hi ≤ hi') (h : E.Along lo hi c c') :
    E.Along lo' hi' c c' := by
  refine ReflTransGen.mono (fun d d' hstep => ?_) c c' h
  exact ⟨hlo.trans hstep.low, hstep.high.trans_le hhi, hstep.steps⟩

/-! ### Statements without an answer -/

/-- Only a `callFunction` can have no answer. -/
theorem step_eq_none {call : String → Store → World → Option Outcome} {a : Activation}
    {s : Statement} {w : World} (h : E.step call a s w = none) :
    s.form = .callFunction ∧ ∃ actuals, (a.memory w).actuals s = .ok actuals ∧
      call s.content actuals w = none := by
  unfold step at h
  cases hform : s.form with
  | callFunction =>
      simp only [hform] at h
      cases hm : (a.memory w).actuals s with
      | error e => simp [hm] at h
      | ok actuals => exact ⟨rfl, actuals, rfl, by simpa [hm] using h⟩
  | callInstruction =>
      simp only [hform] at h
      cases hm : (a.memory w).actuals s <;> simp [hm] at h
  | _ => simp [hform] at h

/-- A statement without an answer, whatever the `fuel`, nests calls below every depth. -/
theorem exists_deeper_of_step {s : Statement} (hs : c.activation.current? = some s)
    (h : ∀ fuel, E.step (E.call fuel (c.depth + 1)) c.activation s c.world = none) (bound : Int) :
    ∃ d, E.Visits c d ∧ bound < d.depth := by
  by_contra hnone
  obtain ⟨hform, actuals, hactuals, -⟩ := step_eq_none (h 0)
  -- calls that stay above the bound have an outcome, and so has the statement
  have hbound : ∀ f d, E.entry (c.depth + 1) s.content c.world = .ok f →
      E.Visits (.entered (c.depth + 1) s.content f actuals c.world) d → d.depth ≤ bound := by
    intro f d hentry hvisit
    by_contra hdeep
    exact hnone ⟨d, .call hs hform hactuals hentry hvisit, by omega⟩
  obtain ⟨fuel, o, ho⟩ := exists_call_of_nesting hbound
  have hstep := h fuel
  rw [step_callFunction hform hactuals, ho] at hstep
  cases hstep

/-! ### Through a block -/

/-- A call comes to the end of an interval `Along` it, or quits inside. -/
inductive Crosses (E : Engine) (lo hi : Nat) (c : Configuration) : Prop
  | through {c' : Configuration} (hpath : E.Along lo hi c c') (hpos : c'.pos = hi)
  | quits (h : E.QuitsWithin lo hi c)

theorem QuitsWithin.of_path {lo' hi' : Nat} (hpath : E.Along lo hi c c') (hlo : lo ≤ lo')
    (hhi : hi' ≤ hi) (h : E.QuitsWithin lo' hi' c') : E.QuitsWithin lo hi c := by
  obtain ⟨hrest, hlo', hhi', hquit⟩ := h
  exact ⟨hpath.trans (hrest.mono hlo hhi), hlo.trans hlo', hhi'.trans_le hhi, hquit⟩

/-- A call that `Crosses` one interval and then another one crosses both. -/
theorem Crosses.andThen {mid : Nat} (hlo : lo ≤ mid) (hhi : mid ≤ hi)
    (h : E.Crosses lo mid c)
    (hnext : ∀ c', E.Along lo mid c c' → c'.pos = mid → E.Crosses mid hi c') :
    E.Crosses lo hi c := by
  cases h with
  | quits hquit => exact .quits (.of_path .refl (Nat.le_refl lo) hhi hquit)
  | through hpath hpos =>
      have hfirst : E.Along lo hi c _ := hpath.mono (Nat.le_refl lo) hhi
      cases hnext _ hpath hpos with
      | quits hquit => exact .quits (.of_path hfirst hlo (Nat.le_refl hi) hquit)
      | through hrest hpos' => exact .through (hfirst.trans (hrest.mono hlo (Nat.le_refl hi))) hpos'

/-- At a statement that is no bracket of a loop, a call `Quits` or goes on with the next one. -/
theorem crosses_plain {s : Statement} (hs : c.activation.current? = some s)
    (hplain : s.form.isBracket = false) : E.Crosses c.pos (c.pos + 1) c := by
  have hquits : E.Quits c → E.Crosses c.pos (c.pos + 1) c := fun h =>
    .quits ⟨.refl, Nat.le_refl _, Nat.lt_succ_self _, h⟩
  by_cases hret : s.form = .ret
  · exact hquits (.returns hs hret)
  · by_cases hanswer : ∃ fuel t,
        E.step (E.call fuel (c.depth + 1)) c.activation s c.world = some t
    · obtain ⟨fuel, t, ht⟩ := hanswer
      cases t with
      | stop f w => exact hquits (.raises hs ht)
      | next a w =>
          have hstep : E.Steps c ⟨c.depth, a, w⟩ := .next hs ht
          exact .through (.single ⟨Nat.le_refl _, Nat.lt_succ_self _, hstep⟩)
            (advance_of_step hplain hret ht).1
    · have hstep : ∀ fuel,
          E.step (E.call fuel (c.depth + 1)) c.activation s c.world = none := by
        intro fuel
        rw [Option.eq_none_iff_forall_ne_some]
        exact fun t ht => hanswer ⟨fuel, t, ht⟩
      exact hquits (.overflows hs hstep (exists_deeper_of_step hs hstep))

/-! ### The passes of a loop -/

theorem Loops.succ {n : Nat} (hpass : E.Pass start stop c c') (h : E.Loops start stop n c') :
    E.Loops start stop (n + 1) c := by
  cases h with
  | through hpasses hleave hbehind => exact .through (.succ hpass hpasses) hleave hbehind
  | broken hk hpasses henter hfirst hquit =>
      exact .broken (Nat.succ_lt_succ hk) (.succ hpass hpasses) henter hfirst hquit

section Loop

variable {f : Function} {index : LoopIndex} {s close : Statement} {hs : s.form = .loop}
  {hc : close.form = .endLoop} {body rest : Block}

/-- At its end, a loop goes back to its opening statement at `start`, with all counters as they
are. -/
theorem steps_back (hb : (Block.loop s hs body close hc rest).Placed f start)
    (hat : c.At f (start + body.size + 1)) :
    E.Steps c ⟨c.depth, c.activation.goto start, c.world⟩ := by
  obtain ⟨index, hindex, -, hstart⟩ := hb.loop_jumps
  have hstep : E.step (E.call 0 (c.depth + 1)) c.activation close c.world =
      some (.next (c.activation.goto start) c.world) := by
    simp only [step, hc, Activation.withIndex, hat.function, hindex, hat.pos, hstart]
  exact .next (hat.current?.trans hb.loop_close) hstep

/-- An opening statement whose loop has a counter starts another `pass`, or ends the loop. -/
theorem steps_again (hb : (Block.loop s hs body close hc rest).Placed f start)
    (hindex : f.loopIndex = .ok index) (hat : c.At f start) {n : Counter}
    (hn : c.activation.loops.lookup start = some n) :
    E.Steps c ⟨c.depth, c.activation.pass index n, c.world⟩ := by
  have hstep : E.step (E.call 0 (c.depth + 1)) c.activation s c.world =
      some (.next (c.activation.pass index n) c.world) := by
    simp only [step, hs, Activation.withIndex, hat.function, hindex, Activation.loop, hat.pos, hn]
  exact .next (hat.current?.trans hb.loop_current) hstep

/-- A loop that is about to start the pass after the first `k` ones, or to end,
makes the other `n - k` passes, if its body is crossed each time. -/
theorem loops_of_pass (hb : (Block.loop s hs body close hc rest).Placed f start)
    (hindex : f.loopIndex = .ok index)
    (hbody : ∀ d : Configuration, d.At f (start + 1) →
      E.Crosses (start + 1) (start + body.size + 1) d)
    {k n : Int} (hat : c.At f start)
    (hpass : E.Steps c ⟨c.depth, c.activation.pass index ⟨k, n⟩, c.world⟩) :
    E.Loops start (start + body.size + 1) (n - k).toNat c := by
  -- the induction is on the number of passes that are left
  generalize hr : (n - k).toNat = r
  induction r generalizing k c with
  | zero =>
      obtain ⟨index', hindex', hstop, -⟩ := hb.loop_jumps
      cases hindex.symm.trans hindex'
      refine .through (.zero c) hpass ?_
      rw [Configuration.pos, Activation.pos_pass_of_le (by omega), hat.pos, hstop]
  | succ r ih =>
      have hk : k < n := by omega
      have hfirst : (Configuration.mk c.depth (c.activation.pass index ⟨k, n⟩) c.world).At f
          (start + 1) := by
        refine ⟨(Activation.function_pass ..).trans hat.function, ?_⟩
        rw [Activation.pos_pass_of_lt hk, hat.pos]
      cases hbody _ hfirst with
      | quits hquit => exact .broken (Nat.succ_pos r) (.zero c) hpass hfirst.pos hquit
      | @through last hpath hlast =>
          -- behind the body the loop finds the counter that it has left
          have hcounter : last.activation.loops.lookup start = some ⟨k + 1, n⟩ := by
            rw [hpath.lookup_eq (Nat.lt_succ_self start), ← hat.pos]
            exact Activation.lookup_pass_of_lt hk
          have hend := hpath.at hfirst hlast
          have hback := steps_back (E := E) hb hend
          have hopen : Configuration.At ⟨last.depth, last.activation.goto start, last.world⟩ f
              start := ⟨hend.function, rfl⟩
          refine .succ (.mk hat.pos hpass hfirst.pos hpath hlast hback rfl) ?_
          exact ih hopen (steps_again hb hindex hopen hcounter) (by omega)

/-- The `Passes` of a loop are a path in it. -/
theorem Passes.along {k : Nat} (hlt : start < stop) (h : E.Passes start stop k c c') :
    E.Along start (stop + 1) c c' := by
  induction h with
  | zero => exact .refl
  | succ hpass _ ih =>
      obtain ⟨hopen, henter, hfirst, hbody, hlast, hback, -⟩ := hpass
      refine .head ⟨by omega, by omega, henter⟩ (.trans ?_ (.head ⟨?_, ?_, hback⟩ ih))
      · exact hbody.mono (by omega) (by omega)
      · omega
      · omega

theorem Passes.pos_eq {k : Nat} (h : E.Passes start stop k c c') (hc : c.pos = start) :
    c'.pos = start := by
  induction h with
  | zero => exact hc
  | succ hpass _ ih =>
      obtain ⟨-, -, -, -, -, -, hagain⟩ := hpass
      exact ih hagain

theorem Loops.crosses {n : Nat} (hlt : start < stop) (hc : c.pos = start)
    (h : E.Loops start stop n c) : E.Crosses start (stop + 1) c := by
  cases h with
  | through hpasses hleave hbehind =>
      have hlast := hpasses.pos_eq hc
      exact .through ((hpasses.along hlt).tail ⟨by omega, by omega, hleave⟩) hbehind
  | broken hk hpasses henter hfirst hquit =>
      have hlast := hpasses.pos_eq hc
      have hpath := (hpasses.along hlt).tail ⟨by omega, by omega, henter⟩
      exact .quits (.of_path hpath (by omega) (by omega) hquit)

/-- A loop that has no counter is entered with its `loopCount`, left out with a message, or ends
the call. -/
theorem enter_cases (hb : (Block.loop s hs body close hc rest).Placed f start)
    (hindex : f.loopIndex = .ok index) (hat : c.At f start)
    (hn : c.activation.loops.lookup start = none) :
    (∃ n, Activation.loopCount (c.activation.memory c.world) s = .ok n ∧
      Numeral.writable n = true ∧
      E.Steps c ⟨c.depth, c.activation.pass index ⟨0, n⟩, c.world⟩) ∨
    (∃ e, Activation.loopCount (c.activation.memory c.world) s = .error e ∧
      E.Steps c ⟨c.depth, c.activation.goto (start + body.size + 2),
        c.world.log .error (c.activation.describe .loop
          ("invalid " ++ Statement.countArg ++ ", loop skipped: " ++ e.message))⟩) ∨
    ∃ n, Activation.loopCount (c.activation.memory c.world) s = .ok n ∧
      Numeral.writable n = false ∧ E.Quits c := by
  obtain ⟨index', hindex', hstop, -⟩ := hb.loop_jumps
  cases hindex.symm.trans hindex'
  have hcur : c.activation.current? = some s := hat.current?.trans hb.loop_current
  rw [← hat.function] at hindex
  rw [← hat.pos] at hn
  have hcases := @step_loop_cases E (E.call 0 (c.depth + 1)) c.activation s c.world index hs
    hindex hn
  rw [hat.pos, hstop] at hcases
  rcases hcases with ⟨n, hcount, hw, hstep⟩ | ⟨e, hcount, hstep⟩ | ⟨n, hcount, hw, hstep⟩
  · exact .inl ⟨n, hcount, hw, .next hcur hstep⟩
  · exact .inr (.inl ⟨e, hcount, .next hcur hstep⟩)
  · exact .inr (.inr ⟨n, hcount, hw, .raises hcur hstep⟩)

/-- A call `Crosses` a loop, whether it is being run or not, if it crosses its body. -/
theorem crosses_loop (hb : (Block.loop s hs body close hc rest).Placed f start)
    (hbody : ∀ d : Configuration, d.At f (start + 1) →
      E.Crosses (start + 1) (start + body.size + 1) d)
    (hat : c.At f start) : E.Crosses start (start + body.size + 2) c := by
  obtain ⟨index, hindex, -⟩ := hb.loop_jumps
  have hpos : c.pos = start := hat.pos
  -- a counter bounds the passes that are left, also one that the call came with
  have hloops : ∀ {k n : Int},
      E.Steps c ⟨c.depth, c.activation.pass index ⟨k, n⟩, c.world⟩ →
      E.Crosses start (start + body.size + 2) c :=
    fun hpass => (loops_of_pass hb hindex hbody hat hpass).crosses (by omega) hat.pos
  cases hn : c.activation.loops.lookup start with
  | some n => exact hloops (steps_again hb hindex hat hn)
  | none =>
      rcases enter_cases hb hindex hat hn with ⟨n, -, -, hpass⟩ | ⟨e, -, hskip⟩ | ⟨n, -, -, hquit⟩
      · exact hloops hpass
      · exact .through (.single ⟨by omega, by omega, hskip⟩) rfl
      · exact .quits ⟨.refl, by omega, by omega, hquit⟩

/-- A call that stands at a block `Crosses` it, whatever counters it has. -/
theorem crosses_block (b : Block) {pos : Nat} (hb : b.Placed f pos) (hat : c.At f pos) :
    E.Crosses pos (pos + b.size) c := by
  induction b generalizing pos c with
  | done => exact .through .refl hat.pos
  | plain s hs rest ih =>
      have hcross := crosses_plain (E := E) (hat.current?.trans hb.plain_current) hs
      rw [Configuration.pos, hat.pos] at hcross
      rw [Block.size_plain]
      refine hcross.andThen (by omega) (by omega) fun d hpath hd => ?_
      have hrest := ih hb.plain_rest (hpath.at hat hd)
      rwa [Nat.add_assoc, Nat.add_comm 1] at hrest
  | loop s hs body close hc rest ihb ihr =>
      have hbody : ∀ d : Configuration, d.At f (pos + 1) →
          E.Crosses (pos + 1) (pos + body.size + 1) d := by
        intro d hd
        have hcross := ihb hb.loop_body hd
        rwa [Nat.add_right_comm] at hcross
      have hsize : pos + (body.size + rest.size + 2) = pos + body.size + 2 + rest.size := by omega
      rw [Block.size_loop, hsize]
      refine (crosses_loop hb hbody hat).andThen (by omega) (by omega) fun d hpath hd => ?_
      exact ihr hb.loop_rest (hpath.at hat hd)

/-- A loop that is entered makes as many passes as `loopCount` says. -/
theorem loops_of_loopCount (hb : (Block.loop s hs body close hc rest).Placed f start)
    (hat : c.At f start) (hn : c.activation.loops.lookup start = none) {m : Int}
    (hm : Activation.loopCount (c.activation.memory c.world) s = .ok m)
    (hw : Numeral.writable m = true) : E.Loops start (start + body.size + 1) m.toNat c := by
  obtain ⟨index, hindex, -⟩ := hb.loop_jumps
  have hbody : ∀ d : Configuration, d.At f (start + 1) →
      E.Crosses (start + 1) (start + body.size + 1) d := by
    intro d hd
    have hcross := crosses_block (E := E) body hb.loop_body hd
    rwa [Nat.add_right_comm] at hcross
  rcases enter_cases (E := E) hb hindex hat hn with ⟨n, hcount, -, hpass⟩ | ⟨e, hcount, -⟩ |
    ⟨n, hcount, hlong, -⟩
  · cases hm.symm.trans hcount
    have hloops := loops_of_pass hb hindex hbody hat hpass
    rwa [Int.sub_zero] at hloops
  · cases hm.symm.trans hcount
  · cases hm.symm.trans hcount
    rw [hw] at hlong
    cases hlong

end Loop

end Engine

/-! ### The loops of a function -/

namespace Block

/-- One of the `pairs` of a block is a loop that is `Placed` in it. -/
theorem Placed.exists_loop {f : Function} {pos p q : Nat} {b : Block} (h : b.Placed f pos)
    (hpq : (p, q) ∈ b.pairs pos) :
    ∃ s hs body close hc rest, (Block.loop s hs body close hc rest).Placed f p ∧
      q = p + body.size + 1 := by
  induction b generalizing pos with
  | done => cases hpq
  | plain s hs rest ih => exact ih h.plain_rest hpq
  | loop s hs body close hc rest ihb ihr =>
      rcases List.mem_append.1 hpq with hrest | hpq
      · exact ihr h.loop_rest hrest
      · rcases List.mem_cons.1 hpq with heq | hinner
        · cases heq
          exact ⟨s, hs, body, close, hc, rest, h, rfl⟩
        · exact ihb h.loop_body hinner

/-- In a function that is `Balanced`, a statement that opens a loop opens one. -/
theorem exists_placed_loop {f : Function} {p : Nat} {s : Statement}
    (h : Balanced (f.body.map (·.form))) (hs : f.body[p]? = some s) (hform : s.form = .loop) :
    ∃ body close hc rest, (Block.loop s hform body close hc rest).Placed f p ∧
      Encloses (f.body.map (·.form)) p (p + body.size + 1) := by
  obtain ⟨b, hparse⟩ := balanced_iff_parse?.1 h
  have hplaced := placed_of_parse? hparse
  have hopen : (f.body.map (·.form))[p]? = some .loop := by
    rw [List.getElem?_map, hs, Option.map_some, hform]
  obtain ⟨q, hq, henc⟩ := exists_encloses hparse hopen
  -- the pair is found from its opening end
  have hpq : (p, q) ∈ b.pairs 0 := by
    refine (partner?_eq_some_iff.1 hq).resolve_right fun hqp => ?_
    have hclose := (encloses_of_mem_pairs hplaced hqp).closes
    cases hopen.symm.trans hclose
  obtain ⟨s', hs', body, close, hc, rest, hloop, rfl⟩ := hplaced.exists_loop hpq
  cases hs.symm.trans hloop.loop_current
  exact ⟨body, close, hc, rest, hloop, henc⟩

end Block

namespace Engine

/-- The count of a loop is read off the `payload` of its value, whatever the tag. -/
theorem loopCount_of_arg {m : Memory} {s : Statement} {v : Tagged}
    (hv : m.arg s Statement.countArg = .ok v) :
    Activation.loopCount m s = (Numeral.parse v.payload).mapError .numeral := by
  rw [Activation.loopCount, hv]

/-- **How often a loop runs.** A loop is entered in some state, and its count is a value that an
integer field would take as `n` (`Tagged.toInt`). Unless the value has the tag of hex texts, the
loop makes `n` passes, none if `n` is negative, and is left, or its body quits in one of them
(`Loops`). Under the tag of hex texts it makes as many passes as the payload says as a number,
and where the payload is none, the loop is left out with a message. -/
theorem loops_of_count (E : Engine) (depth : Int) (a : Activation) (w : World) {s : Statement}
    {v : Tagged} {n : Int} (hbalanced : Balanced (a.function.body.map (·.form)))
    (hs : a.current? = some s) (hform : s.form = .loop) (henter : a.loops.lookup a.pos = none)
    (hv : (a.memory w).arg s Statement.countArg = .ok v) (hn : v.toInt = .ok n)
    (hw : Numeral.writable n = true) :
    ∃ stop, Encloses (a.function.body.map (·.form)) a.pos stop ∧
      (v.tag ≠ Kind.hex.tag → E.Loops a.pos stop n.toNat ⟨depth, a, w⟩) ∧
      (v.tag = Kind.hex.tag →
        (∀ m, Numeral.parse v.payload = .ok m → Numeral.writable m = true →
          E.Loops a.pos stop m.toNat ⟨depth, a, w⟩) ∧
        ∀ e, Numeral.parse v.payload = .error e →
          E.Steps ⟨depth, a, w⟩ ⟨depth, a.goto (stop + 1), w.log .error (a.describe .loop
            ("invalid " ++ Statement.countArg ++ ", loop skipped: " ++ e.message))⟩) := by
  obtain ⟨body, close, hc, rest, hb, henc⟩ := Block.exists_placed_loop hbalanced hs hform
  have hat : Configuration.At ⟨depth, a, w⟩ a.function a.pos := ⟨rfl, rfl⟩
  have hloops : ∀ m, Numeral.parse v.payload = .ok m → Numeral.writable m = true →
      E.Loops a.pos (a.pos + body.size + 1) m.toNat ⟨depth, a, w⟩ := by
    intro m hm hwm
    refine loops_of_loopCount hb hat henter ?_ hwm
    rw [loopCount_of_arg hv, hm]
    rfl
  refine ⟨a.pos + body.size + 1, henc, fun htag => ?_, fun _ => ⟨hloops, fun e he => ?_⟩⟩
  · refine hloops n ?_ hw
    rw [Tagged.toInt, if_neg htag] at hn
    cases hparse : Numeral.parse v.payload with
    | error e => simp [hparse] at hn
    | ok m => simpa [hparse] using hn
  · obtain ⟨index, hindex, -⟩ := hb.loop_jumps
    have hcount : Activation.loopCount (a.memory w) s = .error (.numeral e) := by
      rw [loopCount_of_arg hv, he]
      rfl
    rcases enter_cases (E := E) hb hindex hat henter with ⟨m, hm, -⟩ | ⟨e', he', hskip⟩ | ⟨m, hm, -⟩
    · cases hcount.symm.trans hm
    · cases hcount.symm.trans he'
      exact hskip
    · cases hcount.symm.trans hm

/-- A function that counts the passes of a loop in `hits`. -/
def counting (count : Tagged) : Function :=
  .make "f" [] [.setLocal "hits=int:0" "", .loop count "",
    .setVar "hits" "+=" ⟨"int", "1"⟩ "" ⟨"", ""⟩ "", .endLoop ""] ""

/-- A count of three, and one that is no number without its tag. -/
theorem loops_of_count_counting :
    (∃ stop, Encloses ((counting ⟨"int", "3"⟩).body.map (·.form)) 1 stop ∧
      ({} : Engine).Loops 1 stop 3
        ⟨0, (Activation.start (counting ⟨"int", "3"⟩) {}).goto 1, ⟨{}, #[]⟩⟩) ∧
    ∃ stop, Encloses ((counting ⟨"hex", "0A"⟩).body.map (·.form)) 1 stop ∧
      ∃ text, ({} : Engine).Steps
        ⟨0, (Activation.start (counting ⟨"hex", "0A"⟩) {}).goto 1, ⟨{}, #[]⟩⟩
        ⟨0, (Activation.start (counting ⟨"hex", "0A"⟩) {}).goto (stop + 1),
          World.log ⟨{}, #[]⟩ .error text⟩ := by
  have hbalanced : Balanced [.setLocal, .loop, .setVar, .endLoop] :=
    .plain rfl (@Balanced.loop [.setVar] [] (.plain rfl .nil) .nil)
  constructor
  · obtain ⟨stop, henc, hloops, -⟩ := loops_of_count {} 0
      ((Activation.start (counting ⟨"int", "3"⟩) {}).goto 1) ⟨{}, #[]⟩ (v := ⟨"int", "3"⟩)
      (n := 3) hbalanced rfl rfl rfl rfl rfl (by decide +kernel)
    exact ⟨stop, henc, hloops (by decide)⟩
  · obtain ⟨stop, henc, -, hhex⟩ := loops_of_count {} 0
      ((Activation.start (counting ⟨"hex", "0A"⟩) {}).goto 1) ⟨{}, #[]⟩ (v := ⟨"hex", "0A"⟩)
      (n := 10) hbalanced rfl rfl rfl rfl (by decide) (by decide +kernel)
    exact ⟨stop, henc, _, (hhex rfl).2 (.malformed 0 "0A") rfl⟩

/-- The value `hex:10` is sixteen in a field and ten passes of a loop. -/
theorem not_loops_hexCount :
    Tagged.toInt ⟨"hex", "10"⟩ = .ok 16 ∧ packField "u8" ⟨"hex", "10"⟩ = .ok [16] ∧
    ({} : Engine).Loops 0 1 10 ⟨0, .start (emptyLoop ⟨"hex", "10"⟩) {}, ⟨{}, #[]⟩⟩ ∧
    ¬ ({} : Engine).Loops 0 1 16 ⟨0, .start (emptyLoop ⟨"hex", "10"⟩) {}, ⟨{}, #[]⟩⟩ := by
  have hten : ({} : Engine).Loops 0 1 10
      ⟨0, .start (emptyLoop ⟨"hex", "10"⟩) {}, ⟨{}, #[]⟩⟩ := by
    have hb : (Block.loop (.loop ⟨"hex", "10"⟩ "") rfl .done (.endLoop "") rfl .done).Placed
        (emptyLoop ⟨"hex", "10"⟩) 0 :=
      Block.placed_of_parse? (Block.parse?_eq_some_iff.2 rfl)
    refine loops_of_loopCount (m := 10) hb ⟨rfl, rfl⟩ rfl ?_ ?_
    · rw [loopCount_loop _ rfl rfl]
      rfl
    · decide +kernel
  refine ⟨by decide, by decide, hten, fun hsixteen => ?_⟩
  have heq : 10 = 16 := hten.unique (by omega) (fun first hquit => ?_) hsixteen
  · omega
  · obtain ⟨-, hlo, hhi, -⟩ := hquit
    omega

end Engine

end BusScript
