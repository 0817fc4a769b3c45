import BusScript.Proofs.FailStop
import BusScript.Proofs.Passes

/-!
# Up to the first bracket

A function whose loops do not pair up can still be executed: nothing asks for
its loop index before a statement opens or closes a loop, and there is none then.
So such a function never jumps. The statements in front of its first bracket
are executed one after the other, and if none of them ends the call, the
bracket does, by the fault that says how the loops fail to pair up.

* `Straight` — statements that are executed one after the other;
* `Founders` — the outcomes of a call that can not get behind a bracket;
* `ends_iff_founders` — a run has these outcomes and no others, by induction on
  the statements that are in front of the bracket.
-/

namespace BusScript

open Relation (ReflTransGen)

/-- The statements of a function in front of the first bracket (`Form.isBracket`) of a loop. -/
def Function.front (f : Function) : List Statement :=
  f.body.takeWhile fun s => !s.form.isBracket

theorem Function.isBracket_of_mem_front {f : Function} {s : Statement} (h : s ∈ f.front) :
    s.form.isBracket = false := by
  simpa using List.mem_takeWhile_imp h

/-- Statements that are not `Balanced` have a first bracket. -/
theorem exists_bracket_of_not_balanced {ss : List Statement}
    (h : ¬ Balanced (ss.map (·.form))) :
    ∃ s rest, ss = (ss.takeWhile fun s => !s.form.isBracket) ++ s :: rest ∧
      s.form.isBracket = true := by
  induction ss with
  | nil => exact absurd .nil h
  | cons t ss ih =>
      cases ht : t.form.isBracket with
      | true => exact ⟨t, ss, by simp [ht], ht⟩
      | false =>
          obtain ⟨s, rest, hss, hs⟩ := ih fun hbalanced => h (.plain ht hbalanced)
          refine ⟨s, rest, ?_, hs⟩
          simpa [ht] using hss

/-- A call is over once a `ret` has been executed. -/
theorem Engine.current?_of_step {E : Engine} {call : String → Store → World → Option Outcome}
    {a a' : Activation} {s : Statement} {w w' : World} (hret : s.form = .ret)
    (h : E.step call a s w = some (.next a' w')) : a'.current? = none := by
  simp only [step, hret, Option.some.injEq, Activation.ret] at h
  split at h
  · cases h
    exact Activation.current?_leave a
  · cases h
    exact Activation.current?_leave a
  · split at h <;> cases h <;> exact Activation.current?_leave _

theorem Activation.finish_eq (a : Activation) (w : World) :
    ∃ w', a.finish w = ⟨.ok a.result, w'⟩ := by
  unfold finish
  cases a.result with
  | none => exact ⟨_, rfl⟩
  | some v => exact ⟨w, rfl⟩

namespace Engine

/-- The statement `s` is executed, changes variables of its call and the world, and is followed
by the next one. -/
inductive Advances (E : Engine) (s : Statement) : Configuration → Configuration → Prop
  | next {depth : Int} {a : Activation} {locals : Store} {w w' : World} {fuel : Nat}
      (hret : s.form ≠ .ret)
      (hstep : E.step (E.call fuel (depth + 1)) a s w =
        some (.next { a with locals }.advance w')) :
      Advances E s ⟨depth, a, w⟩ ⟨depth, { a with locals }.advance, w'⟩

/-- Statements are executed one after the other, each of which `Advances`. -/
inductive Straight (E : Engine) : List Statement → Configuration → Configuration → Prop
  | nil (c : Configuration) : Straight E [] c c
  | cons {s : Statement} {ss : List Statement} {c c' d : Configuration}
      (hs : E.Advances s c c') (h : Straight E ss c' d) : Straight E (s :: ss) c d

/-- The statement `s` ends its call with an outcome. -/
inductive Concludes (E : Engine) (s : Statement) (c : Configuration) : Outcome → Prop
  /-- The statement is a `ret`, and the call ends without a fault. -/
  | returns {a : Activation} {w w' : World} {v : Option Tagged} {fuel : Nat}
      (hform : s.form = .ret)
      (hstep : E.step (E.call fuel (c.depth + 1)) c.activation s c.world = some (.next a w))
      (hfinish : a.finish w = ⟨.ok v, w'⟩) : Concludes E s c ⟨.ok v, w'⟩
  /-- The statement ends the call by a fault. -/
  | raises {f : Failure Fault} {w : World} {fuel : Nat}
      (hstep : E.step (E.call fuel (c.depth + 1)) c.activation s c.world = some (.stop f w)) :
      Concludes E s c ⟨.error f, w⟩

/-- A call with the statements `front` in front of a bracket that it can not get behind ends
with an outcome. -/
inductive Founders (E : Engine) (e : LoopFault) (front : List Statement) (c : Configuration) :
    Outcome → Prop
  /-- One of the statements `Concludes` the call. -/
  | before {before after : List Statement} {s : Statement} {d : Configuration} {o : Outcome}
      (hfront : front = before ++ s :: after) (hbefore : E.Straight before c d)
      (hs : E.Concludes s d o) : Founders E e front c o
  /-- The call comes to the bracket, which logs the fault `e` and does nothing else. -/
  | atBracket {d : Configuration} (hfront : E.Straight front c d) :
      Founders E e front c ⟨.error (.error (.structural e)), d.world.log .fatal e.message⟩

/-- A run from the configuration `c` has the outcome `o`. -/
def Ends (E : Engine) (c : Configuration) (o : Outcome) : Prop :=
  ∃ fuel, E.run fuel c.depth c.activation c.world = some o

variable {E : Engine} {e : LoopFault} {s : Statement} {ss front rest : List Statement}
  {c c' d : Configuration} {f : Function} {o : Outcome}

/-! ### Straight lines -/

theorem Advances.at {pos : Nat} (h : E.Advances s c c') (hc : c.At f pos) : c'.At f (pos + 1) := by
  cases h with
  | next hret hstep => exact ⟨hc.function, congrArg (· + 1) hc.pos⟩

/-- Behind the statements `ss` a call stands that many positions further. -/
theorem Straight.at {pos : Nat} (h : E.Straight ss c d) (hc : c.At f pos) :
    d.At f (pos + ss.length) := by
  induction h generalizing pos with
  | nil => exact hc
  | cons hs h ih =>
      have hd := ih (hs.at hc)
      rwa [Nat.add_right_comm] at hd

theorem Straight.snoc (h : E.Straight ss c d) (hs : E.Advances s d c') :
    E.Straight (ss ++ [s]) c c' := by
  induction h with
  | nil => exact .cons hs (.nil _)
  | cons hs' h ih => exact .cons hs' (ih hs)

/-- What a call that `Founders` does with the first statement in front of it. -/
theorem founders_cons_iff :
    E.Founders e (s :: ss) c o ↔
      E.Concludes s c o ∨ ∃ c', E.Advances s c c' ∧ E.Founders e ss c' o := by
  constructor
  · intro h
    cases h with
    | before hfront hbefore hs =>
        cases hbefore with
        | nil =>
            obtain ⟨rfl, rfl⟩ := List.cons.inj hfront
            exact .inl hs
        | cons ht hbefore =>
            obtain ⟨rfl, rfl⟩ := List.cons.inj hfront
            exact .inr ⟨_, ht, .before rfl hbefore hs⟩
    | atBracket hfront =>
        cases hfront with
        | cons ht hfront => exact .inr ⟨_, ht, .atBracket hfront⟩
  · intro h
    rcases h with hs | ⟨c', hs, h⟩
    · have hfront : s :: ss = [] ++ s :: ss := rfl
      exact .before hfront (.nil c) hs
    · cases h with
      | before hfront hbefore ht =>
          exact .before (congrArg (s :: ·) hfront) (.cons hs hbefore) ht
      | atBracket hfront => exact .atBracket (.cons hs hfront)

/-- Right at the bracket a call `Founders` by the fault of the loops, and in no other way. -/
theorem founders_nil_iff :
    E.Founders e [] c o ↔
      o = ⟨.error (.error (.structural e)), c.world.log .fatal e.message⟩ := by
  constructor
  · intro h
    cases h with
    | before hfront => simp at hfront
    | atBracket hfront =>
        cases hfront
        rfl
  · intro h
    rw [h]
    exact .atBracket (.nil c)

/-! ### Runs, statement by statement -/

/-- A run that stands at a statement executes it by `step` and follows the turn. -/
theorem ends_iff_of_current? (hs : c.activation.current? = some s) :
    E.Ends c o ↔ ∃ fuel t, E.step (E.call fuel (c.depth + 1)) c.activation s c.world = some t ∧
      ∃ fuel', E.follow fuel' c.depth t = some o := by
  constructor
  · intro h
    obtain ⟨fuel, h⟩ := h
    cases fuel with
    | zero => simp at h
    | succ fuel =>
        rw [run_of_current? hs] at h
        obtain ⟨t, ht, hfollow⟩ := Option.bind_eq_some_iff.1 h
        exact ⟨fuel, t, ht, fuel, hfollow⟩
  · intro h
    obtain ⟨fuel, t, ht, fuel', hfollow⟩ := h
    -- enough fuel for what the statement calls and for what follows it
    have hstep := step_mono (fun _ _ _ _ => call_mono (Nat.le_max_left fuel fuel')) ht
    refine ⟨max fuel fuel' + 1, ?_⟩
    rw [run_of_current? hs, hstep]
    exact follow_mono (Nat.le_max_right fuel fuel') hfollow

/-- A run that stands behind the last statement ends as `finish` says, without a fault. -/
theorem follow_of_over {depth : Int} {a : Activation} {w : World}
    (ha : a.current? = none) :
    (∃ fuel, E.follow fuel depth (.next a w) = some o) ↔ a.finish w = o := by
  constructor
  · intro h
    obtain ⟨fuel, h⟩ := h
    cases fuel with
    | zero => simp at h
    | succ fuel =>
        rw [follow_next, run_of_over ha] at h
        exact Option.some.inj h
  · intro h
    rw [← h]
    exact ⟨1, run_of_over ha 0⟩

/-- At a statement that is no bracket, a run ends (`Concludes`) or goes on with the next one
(`Advances`). -/
theorem ends_plain_iff (hs : c.activation.current? = some s) (hplain : s.form.isBracket = false) :
    E.Ends c o ↔ E.Concludes s c o ∨ ∃ c', E.Advances s c c' ∧ E.Ends c' o := by
  rw [ends_iff_of_current? hs]
  constructor
  · intro h
    obtain ⟨fuel, t, ht, hfollow⟩ := h
    cases t with
    | stop f w =>
        obtain ⟨fuel', hfollow⟩ := hfollow
        cases hfollow
        exact .inl (.raises ht)
    | next a w =>
        by_cases hret : s.form = .ret
        · obtain ⟨w', hfinish⟩ := a.finish_eq w
          rw [follow_of_over (current?_of_step hret ht), hfinish] at hfollow
          rw [← hfollow]
          exact .inl (.returns hret ht hfinish)
        · have ha := next_of_plain_step hplain hret ht
          rw [ha] at ht hfollow
          exact .inr ⟨_, .next hret ht, hfollow⟩
  · intro h
    rcases h with hs | ⟨c', hs, hends⟩
    · cases hs with
      | raises hstep => exact ⟨_, _, hstep, 0, rfl⟩
      | returns hret hstep hfinish =>
          exact ⟨_, _, hstep, (follow_of_over (current?_of_step hret hstep)).2 hfinish⟩
    · cases hs with
      | next hret hstep => exact ⟨_, _, hstep, hends⟩

/-- At a bracket of loops that do not pair up, a run ends by the fault `structural`. -/
theorem step_bracket (hform : s.form.isBracket = true) (hs : c.activation.current? = some s)
    (he : c.activation.function.loopIndex = .error e) (fuel : Nat) :
    E.step (E.call fuel (c.depth + 1)) c.activation s c.world =
      some (.stop (.error (.structural e)) (c.world.log .fatal e.message)) := by
  have hopen : s.form = .loop ∨ s.form = .endLoop := by
    cases hf : s.form <;> simp [hf, Form.isBracket] at hform ⊢
  obtain ⟨s', hs', hstep⟩ := step_of_raises (E := E) (.unpaired hs hopen he) rfl
  cases hs.symm.trans hs'
  exact hstep fuel

theorem ends_bracket_iff (hform : s.form.isBracket = true) (hs : c.activation.current? = some s)
    (he : c.activation.function.loopIndex = .error e) :
    E.Ends c o ↔ o = ⟨.error (.error (.structural e)), c.world.log .fatal e.message⟩ := by
  rw [ends_iff_of_current? hs]
  constructor
  · intro h
    obtain ⟨fuel, t, ht, fuel', hfollow⟩ := h
    rw [step_bracket hform hs he] at ht
    cases ht
    exact (Option.some.inj hfollow).symm
  · intro h
    rw [h]
    exact ⟨0, _, step_bracket hform hs he 0, 0, rfl⟩

/-! ### Runs up to a bracket -/

/-- A call stands in front of the statements `front` and a bracket, and its loops do not pair
up. -/
structure Facing (e : LoopFault) (front : List Statement) (c : Configuration) : Prop where
  ahead : ∃ s rest, c.activation.function.body.drop c.pos = front ++ s :: rest ∧
    s.form.isBracket = true
  plain : ∀ t ∈ front, t.form.isBracket = false
  fault : c.activation.function.loopIndex = .error e

namespace Facing

theorem current?_cons (h : Facing e (s :: ss) c) : c.activation.current? = some s := by
  obtain ⟨t, rest, hbody, -⟩ := h.ahead
  rw [Activation.current?, ← List.head?_drop, hbody]
  rfl

theorem current?_nil (h : Facing e [] c) :
    ∃ s, c.activation.current? = some s ∧ s.form.isBracket = true := by
  obtain ⟨s, rest, hbody, hs⟩ := h.ahead
  refine ⟨s, ?_, hs⟩
  rw [Activation.current?, ← List.head?_drop, hbody]
  rfl

theorem advances (h : Facing e (s :: ss) c) (hs : E.Advances s c c') : Facing e ss c' := by
  have hc' : c'.At c.activation.function (c.pos + 1) := hs.at ⟨rfl, rfl⟩
  refine ⟨?_, fun t ht => h.plain t (List.mem_cons_of_mem s ht), ?_⟩
  · obtain ⟨t, rest, hbody, ht⟩ := h.ahead
    refine ⟨t, rest, ?_, ht⟩
    rw [Configuration.pos, hc'.function, hc'.pos, ← List.tail_drop, hbody]
    rfl
  · rw [hc'.function, h.fault]

theorem straight (h : Facing e (ss ++ front) c) (hss : E.Straight ss c d) :
    Facing e front d := by
  induction hss with
  | nil => exact h
  | cons hs _ ih => exact ih (h.advances hs)

/-- A call that is not over after a step has executed the first statement of `front`. -/
theorem steps (h : Facing e front c) (hstep : E.Steps c c')
    (hc' : c'.activation.current? ≠ none) :
    ∃ s after, front = s :: after ∧ E.Advances s c c' := by
  cases hstep with
  | @next depth a a' w w' s fuel hs hstep =>
      cases front with
      | nil =>
          obtain ⟨t, ht, hbracket⟩ := h.current?_nil
          cases hs.symm.trans ht
          rw [step_bracket (c := ⟨depth, a, w⟩) hbracket hs h.fault] at hstep
          cases hstep
      | cons t after =>
          cases hs.symm.trans h.current?_cons
          have hret : s.form ≠ .ret := fun hret => hc' (current?_of_step hret hstep)
          have ha' := next_of_plain_step (h.plain s List.mem_cons_self) hret hstep
          rw [ha'] at hstep ⊢
          exact ⟨s, after, rfl, .next hret hstep⟩

end Facing

/-- A run that is `Facing` a bracket `Founders` there. -/
theorem ends_iff_founders (h : Facing e front c) : E.Ends c o ↔ E.Founders e front c o := by
  induction front generalizing c with
  | nil =>
      obtain ⟨s, hs, hbracket⟩ := h.current?_nil
      rw [ends_bracket_iff hbracket hs h.fault, founders_nil_iff]
  | cons s ss ih =>
      rw [ends_plain_iff h.current?_cons (h.plain s List.mem_cons_self), founders_cons_iff]
      refine or_congr_right (exists_congr fun c' => and_congr_right fun hs => ?_)
      exact ih (h.advances hs)

/-- A call that has not ended has executed some of the statements of `front`, one after the
other. -/
theorem exists_straight_of_steps (h : Facing e front c) (hpath : ReflTransGen E.Steps c d)
    (hd : d.activation.current? ≠ none) :
    ∃ before after, front = before ++ after ∧ E.Straight before c d := by
  induction hpath with
  | refl => exact ⟨[], front, rfl, .nil c⟩
  | tail hpath hstep ih =>
      -- a call that takes a step has not ended before
      have hcurrent : ∀ {c c' : Configuration}, E.Steps c c' → c.activation.current? ≠ none := by
        intro c c' hstep
        cases hstep with
        | next hs _ => simp [hs]
      obtain ⟨before, after, rfl, hbefore⟩ := ih (hcurrent hstep)
      obtain ⟨s, after, rfl, hs⟩ := (h.straight hbefore).steps hstep hd
      exact ⟨before ++ [s], after, by simp, hbefore.snoc hs⟩

theorem facing_start (hbody : f.body = f.front ++ s :: rest) (hs : s.form.isBracket = true)
    (he : f.loopIndex = .error e) (depth : Int) (args : Store) (w : World) :
    Facing e f.front ⟨depth, .start f args, w⟩ where
  ahead := ⟨s, rest, hbody, hs⟩
  plain := fun _ ht => Function.isBracket_of_mem_front ht
  fault := he

/-- **Loops that do not pair up.** A function whose loops do not pair up, be it registered or
not, forgets the returned value and executes the statements in front of its first bracket
(`front`) one after the other (`Straight`). The first of them that returns or ends the call by a
fault ends it as it does in any function; if there is none, the call comes to the bracket and
ends by the fault of the loop index, which names the function and is logged once. In no state of
the call has it jumped. -/
theorem founders_at_bracket (E : Engine) (depth : Int) (f : Function) (args : Store) (w : World)
    (hunpaired : ¬ Balanced (f.body.map (·.form))) :
    ∃ s rest e, f.body = f.front ++ s :: rest ∧ s.form.isBracket = true ∧
      LoopIndex.ofBody f.name f.body = .error e ∧ e.function = f.name ∧
      (∀ o, (∃ fuel, E.execute fuel depth f args w = some o) ↔
        E.Founders e f.front ⟨depth, .start f args, w.forgetReturn⟩ o) ∧
      (∀ name, E.findFunction? name = some f → E.exceeded? depth = none → ∀ o,
        (∃ fuel, E.call fuel depth name args w = some o) ↔
          E.Founders e f.front (.entered depth name f args w) o) ∧
      ∀ w₀ d, ReflTransGen E.Steps ⟨depth, .start f args, w₀⟩ d →
        d.activation.current? ≠ none →
        ∃ before after, f.front = before ++ after ∧ d.pos = before.length ∧
          E.Straight before ⟨depth, .start f args, w₀⟩ d := by
  obtain ⟨s, rest, hbody, hs⟩ := exists_bracket_of_not_balanced hunpaired
  obtain ⟨e, he⟩ := Block.not_balanced_iff_loopIndex.1 hunpaired
  have hindex := f.loopIndex_eq_ofBody.symm.trans he
  have hunpairs : Unpairs f.name ([] ++ f.body.map (·.form)) e :=
    unpairs_of_scan (.none .nil) hindex
  have hfacing := facing_start hbody hs he depth args
  refine ⟨s, rest, e, hbody, hs, hindex, hunpairs.function_eq, ?_, ?_, ?_⟩
  · intro o
    exact ends_iff_founders (hfacing _)
  · intro name hname hdepth o
    have hentry : E.entry depth name w = .ok f := entry_eq_ok_iff.2 ⟨hname, hdepth⟩
    simp only [call_eq, hentry]
    exact ends_iff_founders (hfacing _)
  · intro w₀ d hpath hd
    obtain ⟨before, after, hfront, hbefore⟩ := exists_straight_of_steps (hfacing w₀) hpath hd
    have hat : d.At f (0 + before.length) := hbefore.at ⟨rfl, rfl⟩
    exact ⟨before, after, hfront, by simpa using hat.pos, hbefore⟩

/-- A function without loops that makes a mistake: `x` is not bound. -/
def steady : Function :=
  .make "f" [] [.setGlobal "early=int:1" "", .setVar "x" "+=" ⟨"int", "1"⟩ "" ⟨"", ""⟩ "",
    .callFunction "g" {} ""] ""

/-- The function `steady` with an `endLoop` that was added after it had been registered. -/
def overgrown : Engine :=
  match ({} : Engine).addFunction steady with
  | .ok E => E.appendStatement "f" (.endLoop "")
  | .error _ => {}

/-- A function whose `ret` stands in front of a loop that it does not close. -/
def returnsEarly : Function :=
  .make "f" [] [.ret "int:7" "", .loop ⟨"int", "2"⟩ "", .setGlobal "late=int:1" ""] ""

theorem founders_at_bracket_overgrown :
    (∃ f w', overgrown.findFunction? "f" = some f ∧ ¬ Balanced (f.body.map (·.form)) ∧
      overgrown.Founders ⟨.notOpened, "f", 3⟩ f.front (.entered 0 "f" f {} ⟨{}, #[]⟩)
        ⟨.error (.error (.structural ⟨.notOpened, "f", 3⟩)), w'⟩ ∧
      w'.messages = [(.error, "f[1] SET_VAR: Undefined variable: x"),
        (.error, "No such function: g"),
        (.fatal, "Unpaired END_LOOP at statement 3 in function 'f'")] ∧
      w'.globals = .ofList [("early", ⟨"int", "1"⟩)]) ∧
    ∃ w', ¬ Balanced (returnsEarly.body.map (·.form)) ∧
      ({} : Engine).Founders ⟨.notClosed, "f", 1⟩ returnsEarly.front
        ⟨0, .start returnsEarly {}, World.forgetReturn ⟨{}, #[]⟩⟩ ⟨.ok (some ⟨"int", "7"⟩), w'⟩ ∧
      w'.messages = [] := by
  constructor
  · have hrun : (overgrown.call 9 0 "f" {} ⟨{}, #[]⟩).map
        (fun o => (o.result, o.world.messages, o.world.globals)) =
          some (.error (.error (.structural ⟨.notOpened, "f", 3⟩)),
            [(.error, "f[1] SET_VAR: Undefined variable: x"), (.error, "No such function: g"),
              (.fatal, "Unpaired END_LOOP at statement 3 in function 'f'")],
            .ofList [("early", ⟨"int", "1"⟩)]) := by
      decide +kernel
    obtain ⟨⟨r, w'⟩, ho, heq⟩ := Option.map_eq_some_iff.1 hrun
    obtain ⟨rfl, heq⟩ := Prod.mk.inj heq
    obtain ⟨hmessages, hglobals⟩ := Prod.mk.inj heq
    have hfind : overgrown.findFunction? "f" = some (steady.append (.endLoop "")) := rfl
    have hindex : (steady.append (.endLoop "")).loopIndex = .error ⟨.notOpened, "f", 3⟩ := rfl
    have hunpaired := Block.not_balanced_iff_loopIndex.2 ⟨_, hindex⟩
    obtain ⟨s, rest, e, -, -, he, -, -, hcall, -⟩ :=
      founders_at_bracket overgrown 0 _ {} ⟨{}, #[]⟩ hunpaired
    cases hindex.symm.trans he
    exact ⟨_, w', hfind, hunpaired, (hcall "f" hfind rfl _).1 ⟨9, ho⟩, hmessages, hglobals⟩
  · have hrun : (({} : Engine).execute 9 0 returnsEarly {} ⟨{}, #[]⟩).map
        (fun o => (o.result, o.world.messages)) = some (.ok (some ⟨"int", "7"⟩), []) := by
      decide +kernel
    obtain ⟨⟨r, w'⟩, ho, heq⟩ := Option.map_eq_some_iff.1 hrun
    obtain ⟨rfl, hmessages⟩ := Prod.mk.inj heq
    have hindex : returnsEarly.loopIndex = .error ⟨.notClosed, "f", 1⟩ := rfl
    have hunpaired := Block.not_balanced_iff_loopIndex.2 ⟨_, hindex⟩
    obtain ⟨s, rest, e, -, -, he, -, hexecute, -⟩ :=
      founders_at_bracket {} 0 _ {} ⟨{}, #[]⟩ hunpaired
    cases hindex.symm.trans he
    exact ⟨w', hunpaired, (hexecute _).1 ⟨9, ho⟩, hmessages⟩

end Engine

end BusScript
