import BusScript.Engine
import BusScript.Execution.Activation

/-!
# The machine

A call is executed statement by statement, from its start to the position
behind its last statement or to a fault.

A step may call another function. The machine is therefore a family of
functions indexed by *fuel*: `run E (n + 1)` takes one step, with `run E n`
for the calls made in it and for what follows. A run without an answer has
merely run out of fuel; an answer never depends on how much was left
(`run_mono`).
-/

namespace BusScript

namespace Engine

/-! ### Calls -/

/-- Encode the instruction `name` with the arguments `args`, and send its frame. Failures are
logged, except one that cannot be written. -/
def send (E : Engine) (name : String) (args : Store) (w : World) :
    Except (Failure Fault) Frame × World :=
  match E.findInstruction? name with
  | none =>
    let fault := Fault.unknown .instruction name
    (.error (.error fault), w.log .error fault.message)
  | some i =>
    match i.encode E.frameSize args with
    | .error .unwritable => (.error .unwritable, w)
    | .error (.error e) => (.error (.error (.encoding e)), w.log .fatal e.message)
    | .ok frame =>
      match frame.render? with
      | none => (.error .unwritable, w)
      | some text =>
        (.ok frame, (w.log .info ("instruction data: " ++ text)).record (.send frame))

/-- The limit of nested calls, if `depth` is over it. -/
def exceeded? (E : Engine) (depth : Int) : Option Int :=
  E.maxCallDepth.filter (· < depth)

/-- Enter the function `name` at a depth of nesting, and execute it by `body`. An unknown name
is a fault before the depth is looked at. -/
def enter (E : Engine) (depth : Int) (name : String) (args : Store) (w : World)
    (body : Activation → World → Option Outcome) : Option Outcome :=
  match E.findFunction? name with
  | none =>
    let fault := Fault.unknown .function name
    some ⟨.error (.error fault), w.log .error fault.message⟩
  | some f =>
    match E.exceeded? depth with
    | some limit =>
      match Failure.showing [depth, limit] (Fault.depth depth limit name) with
      | .error fault => some ⟨.error (.error fault), w.log .fatal fault.message⟩
      | .unwritable => some ⟨.error .unwritable, w⟩
    | none => body (.start f args) (w.record (.enter name)).forgetReturn

/-- Whether a call statement goes on after a fault of what it called: only after
`Fault.unknown`, and not with `stopOnError`. -/
def tolerates (E : Engine) : Failure Fault → Bool
  | .error fault => fault.isUnknown && !E.stopOnError
  | .unwritable => false

/-- Go on after a call that was made by the next statement and ended with `r`. -/
def resume {α : Type} (E : Engine) (a : Activation) (r : Except (Failure Fault) α) (w : World) :
    Turn :=
  match r with
  | .ok _ => .next a.advance w
  | .error f => if E.tolerates f then .next a.advance w else .stop f w

/-- Execute one statement of the call `a`; `call` executes the functions that it calls. -/
def step (E : Engine) (call : String → Store → World → Option Outcome)
    (a : Activation) (s : Statement) (w : World) : Option Turn :=
  let m := a.memory w
  match s.form with
  | .callInstruction =>
    match m.actuals s with
    | .error e => some (a.skip s.form e w)
    | .ok actuals =>
      let (r, w) := E.send s.content actuals w
      some (E.resume a r w)
  | .callFunction =>
    match m.actuals s with
    | .error e => some (a.skip s.form e w)
    | .ok actuals => (call s.content actuals w).map fun o => E.resume a o.result o.world
  | .loop => some (a.withIndex w (a.loop s w))
  | .endLoop => some (a.withIndex w fun index => .next (a.goto (index.partner a.pos)) w)
  | .ret => some (a.ret s w)
  | .setVar => some (a.commit s.form w (m.setVar s))
  | .setLocal => some (a.commit s.form w (m.setLocalStatement s))
  | .setGlobal => some (a.commit s.form w (m.setGlobalStatement s))

/-- Execute a call from its current state to its end, by `step` after `step`. Without enough
fuel there is no answer. -/
def run (E : Engine) : (fuel : Nat) → (depth : Int) → Activation → World → Option Outcome
  | 0, _, _, _ => none
  | fuel + 1, depth, a, w =>
    match a.current? with
    | none => some (a.finish w)
    | some s =>
      let call := fun name args w =>
        E.enter (depth + 1) name args w fun a w => run E fuel (depth + 1) a w
      match E.step call a s w with
      | none => none
      | some (.stop f w) => some ⟨.error f, w⟩
      | some (.next a w) => run E fuel depth a w

/-- Execute the function `f`, registered or not, as a call at a depth of nesting. -/
def execute (E : Engine) (fuel : Nat) (depth : Int) (f : Function) (args : Store) (w : World) :
    Option Outcome :=
  E.run fuel depth (.start f args) w.forgetReturn

/-- Call the function that is registered under `name`, at a depth of nesting. -/
def call (E : Engine) (fuel : Nat) (depth : Int) (name : String) (args : Store) (w : World) :
    Option Outcome :=
  E.enter depth name args w fun a w => E.run fuel depth a w

/-! ## Fuel

More fuel never changes an answer: `run_mono`. A call therefore has at most
one answer (`run_unique`), and whether it has one at all is a question about
the program, not about the fuel.
-/

variable {E : Engine}

/-- The executor `call'` of called functions answers wherever `call` does, and then alike. -/
def Extends (call' call : String → Store → World → Option Outcome) : Prop :=
  ∀ name args w o, call name args w = some o → call' name args w = some o

/-- A `body` that answers more often makes `enter` answer more often, and never otherwise. -/
theorem enter_mono {depth : Int} {name : String} {args : Store} {w : World} {o : Outcome}
    {body body' : Activation → World → Option Outcome}
    (hb : ∀ a w o, body a w = some o → body' a w = some o)
    (h : E.enter depth name args w body = some o) :
    E.enter depth name args w body' = some o := by
  unfold enter at h ⊢
  cases hf : E.findFunction? name with
  | none => simpa only [hf] using h
  | some f =>
    simp only [hf] at h ⊢
    cases hd : E.exceeded? depth with
    | some limit => simpa only [hd] using h
    | none =>
      simp only [hd] at h ⊢
      exact hb _ _ _ h

/-- An executor of calls that `Extends` another one gives the same turns. -/
theorem step_mono {call call' : String → Store → World → Option Outcome} {a : Activation}
    {s : Statement} {w : World} {t : Turn} (hc : Extends call' call)
    (h : E.step call a s w = some t) : E.step call' a s w = some t := by
  unfold step at h ⊢
  cases hs : s.form with
  | callFunction =>
    simp only [hs] at h ⊢
    cases hm : (a.memory w).actuals s with
    | error e => simpa only [hm] using h
    | ok actuals =>
      simp only [hm, Option.map_eq_some_iff] at h ⊢
      obtain ⟨o, ho, rfl⟩ := h
      exact ⟨o, hc _ _ _ _ ho, rfl⟩
  | _ => simpa only [hs] using h

/-- One more unit of fuel keeps an answer of `run`. -/
theorem run_succ {fuel : Nat} {depth : Int} {a : Activation} {w : World} {o : Outcome}
    (h : E.run fuel depth a w = some o) : E.run (fuel + 1) depth a w = some o := by
  induction fuel generalizing depth a w o with
  | zero => simp [run] at h
  | succ n ih =>
    rw [run] at h ⊢
    cases hs : a.current? with
    | none => simpa only [hs] using h
    | some s =>
      simp only [hs] at h ⊢
      split at h
      · simp at h
      · rename_i f w' ht
        rw [step_mono (fun _ _ _ _ => enter_mono fun _ _ _ => ih) ht]
        exact h
      · rename_i a' w' ht
        rw [step_mono (fun _ _ _ _ => enter_mono fun _ _ _ => ih) ht]
        exact ih h

/-- More fuel never changes an answer of `run`. -/
theorem run_mono {n m : Nat} {depth : Int} {a : Activation} {w : World} {o : Outcome}
    (hnm : n ≤ m) (h : E.run n depth a w = some o) : E.run m depth a w = some o := by
  induction hnm with
  | refl => exact h
  | step _ ih => exact run_succ ih

/-- A call has at most one answer, whatever the fuel. -/
theorem run_unique {n m : Nat} {depth : Int} {a : Activation} {w : World} {o o' : Outcome}
    (h : E.run n depth a w = some o) (h' : E.run m depth a w = some o') : o = o' := by
  have hn := run_mono (Nat.le_max_left n m) h
  have hm := run_mono (Nat.le_max_right n m) h'
  rw [hn] at hm
  exact Option.some.inj hm

end Engine

end BusScript
