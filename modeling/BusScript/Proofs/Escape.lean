import BusScript.Proofs.Nesting
import BusScript.Proofs.Numeral
import BusScript.Proofs.Overlong

/-!
# Calls that end for the length of a number

A call comes back with a value, or it ends with a `Fault`, or it ends because
an integer has more digits than can be written. Callers handle faults; none of
them handles the last case. This module says exactly when it arises.

`Writes` collects the integers that a configuration has to write: the results
of an assignment, the number of passes of a loop that is entered, the integers
of an instruction, the depth and the limit of a call that is nested too deeply.
A run ends for the length of a number if and only if it comes to a
configuration that writes one that is too long
(`result_eq_unwritable_iff`).
-/

namespace BusScript

namespace Engine

variable {E : Engine}

/-! ### Calls that are nested too deeply -/

/-- A call of `name` that is nested too deeply writes its `depth` and the limit. -/
inductive DepthWrites (E : Engine) (depth : Int) (name : String) : Int → Prop
  | depth {f : Function} {limit : Int} (hf : E.findFunction? name = some f)
      (hlimit : E.maxCallDepth = some limit) (hlt : limit < depth) : DepthWrites E depth name depth
  | limit {f : Function} {limit : Int} (hf : E.findFunction? name = some f)
      (hlimit : E.maxCallDepth = some limit) (hlt : limit < depth) : DepthWrites E depth name limit

/-- What `exceeded?` finds is a limit that the depth is above. -/
theorem exceeded?_eq_some_iff {depth limit : Int} :
    E.exceeded? depth = some limit ↔ E.maxCallDepth = some limit ∧ limit < depth := by
  simp [exceeded?, Option.filter_eq_some_iff]

/-- A call ends `unwritable` at its entry only if its depth or the limit is too long. -/
theorem exists_depthWrites_of_entry {depth : Int} {name : String} {w : World} {o : Outcome}
    (h : E.entry depth name w = .error o) (ho : o.result = .error .unwritable) :
    ∃ n, E.DepthWrites depth name n ∧ Numeral.writable n = false := by
  unfold entry at h
  cases hf : E.findFunction? name with
  | none =>
      rw [hf] at h
      cases h
      cases ho
  | some f =>
      rw [hf] at h
      cases hlimit : E.exceeded? depth with
      | none => rw [hlimit] at h; cases h
      | some limit =>
          rw [hlimit] at h
          obtain ⟨hmax, hlt⟩ := exceeded?_eq_some_iff.1 hlimit
          cases hshow : Failure.showing [depth, limit] (Fault.depth depth limit name) with
          | error fault =>
              simp only [hshow] at h
              cases h
              cases ho
          | unwritable =>
              obtain ⟨n, hn, hw⟩ := Failure.showing_eq_unwritable_iff.1 hshow
              rcases List.mem_cons.1 hn with hn | hn
              · exact ⟨depth, .depth hf hmax hlt, hn ▸ hw⟩
              · exact ⟨limit, .limit hf hmax hlt, List.mem_singleton.1 hn ▸ hw⟩

theorem entry_of_depthWrites {depth : Int} {name : String} {n : Int}
    (hn : E.DepthWrites depth name n) (hw : Numeral.writable n = false) (w : World) :
    E.entry depth name w = .error ⟨.error .unwritable, w⟩ := by
  obtain ⟨f, limit, hf, hmax, hlt, hmem⟩ : ∃ f limit, E.findFunction? name = some f ∧
      E.maxCallDepth = some limit ∧ limit < depth ∧ n ∈ [depth, limit] := by
    cases hn with
    | depth hf hmax hlt => exact ⟨_, _, hf, hmax, hlt, by simp⟩
    | limit hf hmax hlt => exact ⟨_, _, hf, hmax, hlt, by simp⟩
  have hlimit := exceeded?_eq_some_iff.2 ⟨hmax, hlt⟩
  have hshow : Failure.showing [depth, limit] (Fault.depth depth limit name) = .unwritable :=
    Failure.showing_eq_unwritable_iff.2 ⟨n, hmem, hw⟩
  simp only [entry, hf, hlimit, hshow]

/-! ### Statements -/

section Step

variable {call : String → Store → World → Option Outcome} {a : Activation} {s : Statement}
  {w : World}

/-- What becomes of a `setVar`: it is made, it is left out with an error message, or a number
that it computes is too long. -/
theorem step_setVar_cases (hform : s.form = .setVar) :
    (∃ m, (a.memory w).setVar s = .ok m ∧ E.step call a s w =
      some (.next { a with locals := m.locals, pos := a.pos + 1 }
        { w with globals := m.globals })) ∨
    (∃ e, (a.memory w).setVar s = .error (.error e) ∧ E.step call a s w =
      some (.next { a with pos := a.pos + 1 } (w.log .error (a.describe .setVar e.message)))) ∨
    ∃ n, (a.memory w).Computes s n ∧ Numeral.writable n = false ∧
      E.step call a s w = some (.stop .unwritable w) := by
  simp only [step, hform]
  cases hm : (a.memory w).setVar s with
  | ok m => exact .inl ⟨m, rfl, rfl⟩
  | error f =>
      cases f with
      | error e => exact .inr (.inl ⟨e, rfl, rfl⟩)
      | unwritable =>
          obtain ⟨n, hn, hw⟩ := Memory.setVar_eq_unwritable_iff.1 hm
          exact .inr (.inr ⟨n, hn, hw, rfl⟩)

/-- What becomes of a loop that is entered: its passes start, it is left out with an error
message, or its `loopCount` is too long. -/
theorem step_loop_cases {index : LoopIndex} (hform : s.form = .loop)
    (hindex : a.function.loopIndex = .ok index) (henter : a.loops.lookup a.pos = none) :
    (∃ n, Activation.loopCount (a.memory w) s = .ok n ∧ Numeral.writable n = true ∧
      E.step call a s w = some (.next (a.pass index ⟨0, n⟩) w)) ∨
    (∃ e, Activation.loopCount (a.memory w) s = .error e ∧ E.step call a s w =
      some (.next { a with pos := index.partner a.pos + 1 } (w.log .error (a.describe .loop
        ("invalid " ++ Statement.countArg ++ ", loop skipped: " ++ e.message))))) ∨
    ∃ n, Activation.loopCount (a.memory w) s = .ok n ∧ Numeral.writable n = false ∧
      E.step call a s w = some (.stop .unwritable w) := by
  simp only [step, hform, Activation.withIndex, hindex, Activation.loop, henter]
  cases hcount : Activation.loopCount (a.memory w) s with
  | error e => exact .inr (.inl ⟨e, rfl, rfl⟩)
  | ok n =>
      dsimp only
      cases hw : Numeral.writable n with
      | true => exact .inl ⟨n, rfl, hw, by rw [if_pos rfl]⟩
      | false => exact .inr (.inr ⟨n, rfl, hw, by rw [if_neg Bool.false_ne_true]⟩)

/-- A `loop` ends its call `unwritable` only when it is entered with a count that is too long.
-/
theorem count_of_stop {w' : World} (hform : s.form = .loop)
    (h : E.step call a s w = some (.stop .unwritable w')) :
    ∃ index n, a.function.loopIndex = .ok index ∧ a.loops.lookup a.pos = none ∧
      Activation.loopCount (a.memory w) s = .ok n ∧ Numeral.writable n = false := by
  cases hindex : a.function.loopIndex with
  | error e =>
      simp only [step, hform, Activation.withIndex, hindex] at h
      cases h
  | ok index =>
      cases henter : a.loops.lookup a.pos with
      | some c =>
          simp only [step, hform, Activation.withIndex, hindex, Activation.loop, henter] at h
          cases h
      | none =>
          rcases step_loop_cases hform hindex henter with ⟨n, -, -, hstep⟩ | ⟨e, -, hstep⟩ |
            ⟨n, hn, hw, -⟩
          · rw [hstep] at h
            cases h
          · rw [hstep] at h
            cases h
          · exact ⟨index, n, rfl, rfl, hn, hw⟩

/-- No caller goes on after an `unwritable` number, and only then does a call statement end for
one. -/
theorem resume_eq_unwritable_iff {α : Type} {r : Except (Failure Fault) α} {w' : World} :
    E.resume a r w = .stop .unwritable w' ↔ r = .error .unwritable ∧ w' = w := by
  cases r with
  | ok v => simp [resume]
  | error f =>
      cases f with
      | unwritable => simp [resume, tolerates, eq_comm]
      | error fault =>
          unfold resume
          dsimp only
          split <;> simp

end Step

/-- The integers that a configuration has to write: what its `setVar` computes, the count of its
loop, and the depth of its call. -/
inductive Writes (E : Engine) : Configuration → Int → Prop
  | assignment {depth : Int} {a : Activation} {w : World} {s : Statement} {n : Int}
      (hs : a.current? = some s) (hform : s.form = .setVar) (hn : (a.memory w).Computes s n) :
      Writes E ⟨depth, a, w⟩ n
  | count {depth : Int} {a : Activation} {w : World} {s : Statement} {index : LoopIndex} {n : Int}
      (hs : a.current? = some s) (hform : s.form = .loop)
      (hindex : a.function.loopIndex = .ok index) (henter : a.loops.lookup a.pos = none)
      (hn : Activation.loopCount (a.memory w) s = .ok n) : Writes E ⟨depth, a, w⟩ n
  | instruction {depth : Int} {a : Activation} {w : World} {s : Statement} {actuals : Store}
      {n : Int} (hs : a.current? = some s) (hform : s.form = .callInstruction)
      (hactuals : (a.memory w).actuals s = .ok actuals) (hn : E.SendWrites s.content actuals n) :
      Writes E ⟨depth, a, w⟩ n
  | call {depth : Int} {a : Activation} {w : World} {s : Statement} {actuals : Store}
      {n : Int} (hs : a.current? = some s) (hform : s.form = .callFunction)
      (hactuals : (a.memory w).actuals s = .ok actuals)
      (hn : E.DepthWrites (depth + 1) s.content n) : Writes E ⟨depth, a, w⟩ n

/-- A statement that `Writes` a number that is too long ends its call. -/
theorem step_of_writes {depth : Int} {a : Activation} {w : World} {n : Int}
    (h : E.Writes ⟨depth, a, w⟩ n) (hw : Numeral.writable n = false) :
    ∃ s, a.current? = some s ∧ ∀ fuel,
      E.step (E.call fuel (depth + 1)) a s w = some (.stop .unwritable w) := by
  cases h with
  | @assignment _ _ _ s n hs hform hn =>
      refine ⟨s, hs, fun fuel => ?_⟩
      have hm := Memory.setVar_eq_unwritable_iff.2 ⟨n, hn, hw⟩
      simp only [step, hform, hm, Activation.commit]
  | @count _ _ _ s index n hs hform hindex henter hn =>
      refine ⟨s, hs, fun fuel => ?_⟩
      simp only [step, hform, Activation.withIndex, hindex, Activation.loop, henter, hn, hw,
        Bool.false_eq_true, if_false]
  | @instruction _ _ _ s actuals n hs hform hactuals hn =>
      refine ⟨s, hs, fun fuel => ?_⟩
      simp only [step, hform, hactuals, send_of_sendWrites hn hw]
      exact congrArg some (resume_eq_unwritable_iff.2 ⟨rfl, rfl⟩)
  | @call _ _ _ s actuals n hs hform hactuals hn =>
      refine ⟨s, hs, fun fuel => ?_⟩
      rw [step_callFunction hform hactuals, call_eq, entry_of_depthWrites hn hw]
      exact congrArg some (resume_eq_unwritable_iff.2 ⟨rfl, rfl⟩)

/-- A statement ends its call `unwritable` only if it `Writes` a number that is too long, or
calls a function that ends so. -/
theorem writes_or_call_of_stop {call : String → Store → World → Option Outcome} {a : Activation}
    {s : Statement} {w w' : World} (depth : Int) (hs : a.current? = some s)
    (h : E.step call a s w = some (.stop .unwritable w')) :
    (∃ n, E.Writes ⟨depth, a, w⟩ n ∧ Numeral.writable n = false) ∨
    ∃ actuals o, s.form = .callFunction ∧ (a.memory w).actuals s = .ok actuals ∧
      call s.content actuals w = some o ∧ o.result = .error .unwritable := by
  cases hform : s.form with
  | setVar =>
      rcases step_setVar_cases (a := a) (w := w) hform with ⟨m, -, hstep⟩ | ⟨e, -, hstep⟩ |
        ⟨n, hn, hw, -⟩
      · rw [hstep] at h
        cases h
      · rw [hstep] at h
        cases h
      · exact .inl ⟨n, .assignment hs hform hn, hw⟩
  | loop =>
      obtain ⟨index, n, hindex, henter, hn, hw⟩ := count_of_stop hform h
      exact .inl ⟨n, .count hs hform hindex henter hn, hw⟩
  | callInstruction =>
      simp only [step, hform] at h
      cases hm : (a.memory w).actuals s with
      | error e => rw [hm] at h; cases h
      | ok actuals =>
          simp only [hm, Option.some.injEq] at h
          obtain ⟨n, hn, hw⟩ := send_eq_unwritable_iff.1 (resume_eq_unwritable_iff.1 h).1
          exact .inl ⟨n, .instruction hs hform hm hn, hw⟩
  | callFunction =>
      cases hm : (a.memory w).actuals s with
      | error e => simp only [step, hform, hm] at h; cases h
      | ok actuals =>
          rw [step_callFunction hform hm] at h
          obtain ⟨o, hcall, ho⟩ := Option.map_eq_some_iff.1 h
          exact .inr ⟨actuals, o, rfl, rfl, hcall, (resume_eq_unwritable_iff.1 ho).1⟩
  -- the other forms write no integer: whatever they end for is something else
  | endLoop =>
      simp only [step, hform, Activation.withIndex] at h
      cases hindex : a.function.loopIndex <;> rw [hindex] at h <;> cases h
  | ret =>
      simp only [step, hform, Activation.ret] at h
      split at h
      · cases h
      · cases h
      · split at h <;> cases h
  | setLocal =>
      simp only [step, hform, Memory.setLocalStatement] at h
      cases hb : Memory.parseBinding s.content <;> rw [hb] at h <;> cases h
  | setGlobal =>
      simp only [step, hform, Memory.setGlobalStatement] at h
      cases hb : Memory.parseBinding s.content <;> rw [hb] at h <;> cases h

/-! ### Runs -/

/-- The turn of a `step` does not depend on how much fuel its calls have. -/
theorem step_unique {n m : Nat} {depth : Int} {a : Activation} {s : Statement} {w : World}
    {t t' : Turn} (h : E.step (E.call n depth) a s w = some t)
    (h' : E.step (E.call m depth) a s w = some t') : t = t' := by
  have hmax : E.step (E.call (max n m) depth) a s w = some t :=
    step_mono (fun _ _ _ _ => call_mono (Nat.le_max_left n m)) h
  have hmax' : E.step (E.call (max n m) depth) a s w = some t' :=
    step_mono (fun _ _ _ _ => call_mono (Nat.le_max_right n m)) h'
  exact Option.some.inj (hmax.symm.trans hmax')

/-- A run that ends `unwritable` has come to a configuration that `Writes` a number that is too
long. -/
theorem exists_writes_of_run {fuel : Nat} {depth : Int} {a : Activation} {w : World} {o : Outcome}
    (h : E.run fuel depth a w = some o) (ho : o.result = .error .unwritable) :
    ∃ c n, E.Visits ⟨depth, a, w⟩ c ∧ E.Writes c n ∧ Numeral.writable n = false := by
  induction fuel generalizing depth a w o with
  | zero => simp at h
  | succ fuel ih =>
      cases hs : a.current? with
      | none =>
          rw [run_of_over hs] at h
          cases h
          unfold Activation.finish at ho
          split at ho <;> cases ho
      | some s =>
          rw [run_of_current? hs] at h
          obtain ⟨t, ht, hfollow⟩ := Option.bind_eq_some_iff.1 h
          cases t with
          | next a' w' =>
              obtain ⟨c, n, hvisit, hn⟩ := ih hfollow ho
              exact ⟨c, n, .next hs ht hvisit, hn⟩
          | stop f w' =>
              cases hfollow
              cases ho
              obtain ⟨n, hn⟩ | ⟨actuals, o, hform, hm, hcall, ho⟩ :=
                writes_or_call_of_stop depth hs ht
              · exact ⟨_, n, .here _, hn⟩
              · -- the callee was not entered, or it has come to such a configuration
                rw [call_eq] at hcall
                cases hentry : E.entry (depth + 1) s.content w with
                | error o' =>
                    rw [hentry] at hcall
                    cases hcall
                    obtain ⟨n, hn, hw⟩ := exists_depthWrites_of_entry hentry ho
                    exact ⟨_, n, .here _, .call hs hform hm hn, hw⟩
                | ok f =>
                    rw [hentry] at hcall
                    obtain ⟨c, n, hvisit, hn⟩ := ih hcall ho
                    exact ⟨c, n, .call hs hform hm hentry hvisit, hn⟩

/-- A run that comes to a configuration that `Writes` a number that is too long ends for it,
through all the calls in between. -/
theorem result_of_visits {c c' : Configuration} {n : Int} (hvisit : E.Visits c c')
    (hn : E.Writes c' n) (hw : Numeral.writable n = false) {fuel : Nat} {o : Outcome}
    (h : E.run fuel c.depth c.activation c.world = some o) : o.result = .error .unwritable := by
  -- induction on the way to the configuration: its end is the end of all that led there
  induction hvisit generalizing fuel o with
  | here c =>
      obtain ⟨s, hs, hstep⟩ := step_of_writes hn hw
      cases fuel with
      | zero => simp at h
      | succ fuel =>
          rw [run_of_current? hs, hstep fuel, Option.bind_some, follow_stop] at h
          cases h
          rfl
  | next hs hstep hvisit ih =>
      cases fuel with
      | zero => simp at h
      | succ fuel =>
          rw [run_of_current? hs] at h
          obtain ⟨t, ht, hfollow⟩ := Option.bind_eq_some_iff.1 h
          -- the visit may have been made with other fuel than the run has
          cases step_unique ht hstep
          exact ih hn hfollow
  | call hs hform hactuals hentry hvisit ih =>
      cases fuel with
      | zero => simp at h
      | succ fuel =>
          rw [run_of_current? hs, step_callFunction hform hactuals] at h
          obtain ⟨t, ht, hfollow⟩ := Option.bind_eq_some_iff.1 h
          obtain ⟨o', hcall, rfl⟩ := Option.map_eq_some_iff.1 ht
          rw [call_eq, hentry] at hcall
          rw [resume_eq_unwritable_iff.2 ⟨ih hn hcall, rfl⟩] at hfollow
          cases hfollow
          rfl

/-! ### Calls -/

/-- The integers that a call has to write, those of the configurations that it `Visits`
included. -/
inductive CallWrites (E : Engine) (depth : Int) (name : String) (args : Store) (w : World) :
    Int → Prop
  | refused {n : Int} (hn : E.DepthWrites depth name n) : CallWrites E depth name args w n
  | visited {f : Function} {c : Configuration} {n : Int} (hentry : E.entry depth name w = .ok f)
      (hvisit : E.Visits (.entered depth name f args w) c) (hn : E.Writes c n) :
      CallWrites E depth name args w n

theorem result_eq_unwritable_iff {fuel : Nat} {depth : Int} {name : String} {args : Store}
    {w : World} {o : Outcome} (h : E.call fuel depth name args w = some o) :
    o.result = .error .unwritable ↔
      ∃ n, E.CallWrites depth name args w n ∧ Numeral.writable n = false := by
  rw [call_eq] at h
  constructor
  · intro ho
    cases hentry : E.entry depth name w with
    | error o' =>
        rw [hentry] at h
        cases h
        obtain ⟨n, hn, hw⟩ := exists_depthWrites_of_entry hentry ho
        exact ⟨n, .refused hn, hw⟩
    | ok f =>
        rw [hentry] at h
        obtain ⟨c, n, hvisit, hn, hw⟩ := exists_writes_of_run h ho
        exact ⟨n, .visited hentry hvisit hn, hw⟩
  · intro h
    rcases h with ⟨n, hn, hw⟩
    cases hn with
    | refused hn =>
        rw [entry_of_depthWrites hn hw] at h
        cases h
        rfl
    | visited hentry hvisit hn =>
        rw [hentry] at h
        exact result_of_visits hvisit hn hw h

/-- A result is a value or a `Fault`, which callers handle. -/
def Handled {α : Type} (r : Except (Failure Fault) α) : Prop :=
  (∃ v, r = .ok v) ∨ ∃ fault, r = .error (.error fault)

/-- A result is `Handled` unless it is `unwritable`. -/
theorem handled_iff {α : Type} {r : Except (Failure Fault) α} {P : Int → Prop}
    (h : r = .error .unwritable ↔ ∃ n, P n ∧ Numeral.writable n = false) :
    Handled r ↔ ∀ n, P n → Numeral.writable n = true := by
  have hne : Handled r ↔ r ≠ .error .unwritable := by
    cases r with
    | ok v => simp [Handled]
    | error f => cases f <;> simp [Handled]
  rw [hne, ne_eq, h]
  simp only [not_exists, not_and, Bool.not_eq_false]

/-- **Only the length of a number escapes.** A call whose nesting is bounded has an outcome, and
it is `Handled`, a value or a fault, if and only if no integer that the call has to write
(`CallWrites`) is too long; so is the result of an instruction. An assignment that fails is left
out with a message, a loop without a usable count is left out with a message, and an argument
that does not fit its field is an encoding error, each of them unless an integer is too long. -/
theorem handled_iff_writable (E : Engine) (depth : Int) (name : String) (args : Store) (w : World)
    {bound : Int}
    (hstack : ∀ f c, E.entry depth name w = .ok f →
      E.Visits (.entered depth name f args w) c → c.depth ≤ bound) :
    (∃ fuel o, E.call fuel depth name args w = some o ∧
      (Handled o.result ↔
        ∀ n, E.CallWrites depth name args w n → Numeral.writable n = true)) ∧
    (∀ name actuals w, Handled (E.send name actuals w).1 ↔
      ∀ n, E.SendWrites name actuals n → Numeral.writable n = true) ∧
    (∀ call a s w, s.form = .setVar →
      (∃ m, (a.memory w).setVar s = .ok m ∧ E.step call a s w =
        some (.next { a with locals := m.locals, pos := a.pos + 1 }
          { w with globals := m.globals })) ∨
      (∃ e, (a.memory w).setVar s = .error (.error e) ∧ E.step call a s w =
        some (.next { a with pos := a.pos + 1 }
          (w.log .error (a.describe .setVar e.message)))) ∨
      ∃ n, (a.memory w).Computes s n ∧ Numeral.writable n = false ∧
        E.step call a s w = some (.stop .unwritable w)) ∧
    (∀ call a s w index, s.form = .loop → a.function.loopIndex = .ok index →
      a.loops.lookup a.pos = none →
      (∃ n, Activation.loopCount (a.memory w) s = .ok n ∧ Numeral.writable n = true ∧
        E.step call a s w = some (.next (a.pass index ⟨0, n⟩) w)) ∨
      (∃ e, Activation.loopCount (a.memory w) s = .error e ∧ E.step call a s w =
        some (.next { a with pos := index.partner a.pos + 1 } (w.log .error (a.describe .loop
          ("invalid " ++ Statement.countArg ++ ", loop skipped: " ++ e.message))))) ∨
      ∃ n, Activation.loopCount (a.memory w) s = .ok n ∧ Numeral.writable n = false ∧
        E.step call a s w = some (.stop .unwritable w)) ∧
    ∀ name actuals w i before p after bs n, E.findInstruction? name = some i →
      i.params = before ++ p :: after → encodeParams i.name actuals before = .ok bs →
      p.Misfits actuals n →
      E.send name actuals w =
        if Numeral.writable n then
          (.error (.error (.encoding (.field i.name p.name (.outOfRange p.type n)))),
            w.log .fatal (EncodeError.field i.name p.name (.outOfRange p.type n)).message)
        else (.error .unwritable, w) := by
  refine ⟨?_, ?_, ?_, ?_, ?_⟩
  · obtain ⟨fuel, o, ho⟩ := exists_call_of_nesting hstack
    exact ⟨fuel, o, ho, handled_iff (result_eq_unwritable_iff ho)⟩
  · intro name actuals w
    exact handled_iff send_eq_unwritable_iff
  · intro call a s w hform
    exact step_setVar_cases hform
  · intro call a s w index hform hindex henter
    exact step_loop_cases hform hindex henter
  · intro name actuals w i before p after bs n hi hparams hbefore hn
    exact send_of_misfits hi hparams hbefore hn w

/-- An engine with a function that adds zero to the integer of `literal`. -/
def adding (literal : String) : Engine where
  maxCallDepth := some 0
  functions := [("f", .make "f" [] [.setVar "x" "=" ⟨"int", literal⟩ "+" ⟨"int", "0"⟩ ""] "")]

theorem handled_iff_writable_adding :
    (∀ f c, (adding "1").entry 0 "f" ⟨{}, #[]⟩ = .ok f →
      (adding "1").Visits (.entered 0 "f" f {} ⟨{}, #[]⟩) c → c.depth ≤ 0) ∧
    ∃ fuel o, (adding "1").call fuel 0 "f" {} ⟨{}, #[]⟩ = some o ∧
      (Handled o.result ↔
        ∀ n, (adding "1").CallWrites 0 "f" {} ⟨{}, #[]⟩ n → Numeral.writable n = true) := by
  have hstack : ∀ f c, (adding "1").entry 0 "f" ⟨{}, #[]⟩ = .ok f →
      (adding "1").Visits (.entered 0 "f" f {} ⟨{}, #[]⟩) c → c.depth ≤ 0 :=
    fun f c hentry hvisit => depth_le_of_visits rfl hvisit (depth_le_of_entry rfl hentry)
  exact ⟨hstack, (handled_iff_writable (adding "1") 0 "f" {} ⟨{}, #[]⟩ hstack).1⟩

/-- A hex literal of a number that is not `writable`. -/
def longLiteral : String :=
  String.ofList (Numeral.hexLiteral false (Numeral.hexPower Numeral.longZeros))

/-- The sum of a `literal` whose number is too long and zero ends the call. -/
theorem not_handled_adding {literal : String} {n : Int} (hparse : Numeral.parse literal = .ok n)
    (hw : Numeral.writable n = false) :
    ∃ fuel o, (adding literal).call fuel 0 "f" {} ⟨{}, #[]⟩ = some o ∧ ¬ Handled o.result := by
  let f : Function := .make "f" [] [.setVar "x" "=" ⟨"int", literal⟩ "+" ⟨"int", "0"⟩ ""] ""
  have hentry : (adding literal).entry 0 "f" ⟨{}, #[]⟩ = .ok f := rfl
  have hsum : Operator.Computes .add ⟨"int", literal⟩ ⟨"int", "0"⟩ (n + 0) :=
    .intro rfl ⟨rfl, hparse⟩ ⟨rfl, rfl⟩
  have hwrites : (adding literal).Writes (.entered 0 "f" f {} ⟨{}, #[]⟩) (n + 0) :=
    .assignment rfl rfl (.binary ⟨rfl, rfl, rfl⟩ rfl rfl rfl hsum)
  rw [Int.add_zero] at hwrites
  obtain ⟨fuel, o, ho⟩ := exists_call_of_limit (E := adding literal) rfl 0 "f" {} ⟨{}, #[]⟩
  refine ⟨fuel, o, ho, fun hhandled => ?_⟩
  have hlong := (handled_iff (result_eq_unwritable_iff ho)).1 hhandled n
    (.visited hentry (.here _) hwrites)
  rw [hw] at hlong
  cases hlong

theorem not_handled_adding_longLiteral :
    ∃ fuel o, (adding longLiteral).call fuel 0 "f" {} ⟨{}, #[]⟩ = some o ∧ ¬ Handled o.result :=
  not_handled_adding (Numeral.parse_hexPower false Numeral.longZeros)
    (Numeral.not_writable_longZeros false)

end Engine

end BusScript
