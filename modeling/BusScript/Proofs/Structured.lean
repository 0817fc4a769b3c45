import BusScript.Proofs.Block
import BusScript.Proofs.Turn

/-!
# Structured execution

The machine of `BusScript.Execution.Machine` jumps between the ends of a loop
and keeps counters. Here is the meaning of the same statements without
positions to jump to and without counters: a body is first read as a `Block`,
and a block is then executed by recursion.

* A loop finds its number of passes **once**, when it is entered. Its body is
  executed that often, and not at all if the number is negative. A loop
  without a number is left out with one message.
* A block either is left `through` its end or ends the whole call (`concluded`): by
  returning from it, or by a fault. Nothing is executed after that, however
  deep the nesting.

The only resource is the number of nested calls (`levels`): blocks are finite,
and so is every number of passes.

Loops run any number of passes that `admits` admits; a call in which a loop is
to make another number of passes is `refused` at that point. With all numbers
admitted, no call is refused. `interpret_agree` compares two choices.
-/

namespace BusScript

/-- How a call is over in a structured execution. -/
inductive Conclusion where
  /-- It has the outcome `o`, as a call of the machine has. -/
  | outcome (o : Outcome)
  /-- A loop was to make `count` passes, and the `Setting` does not admit that number. -/
  | refused (count : Int) (w : World)

/-- How a block ends. -/
inductive Exit where
  /-- It is left at its end, with these local variables and this world. -/
  | through (locals : Store) (w : World)
  /-- The whole call is over, with the conclusion `c`. -/
  | concluded (c : Conclusion)

namespace Exit

/-- The call is over with this `result`. -/
def ended (result : Except (Failure Fault) (Option Tagged)) (w : World) : Exit :=
  .concluded (.outcome ⟨result, w⟩)

/-- Go on with `next` behind a block, unless the call is over. -/
def andThen (x : Option Exit) (next : Store → World → Option Exit) : Option Exit :=
  match x with
  | some (.through locals w) => next locals w
  | ended => ended

@[simp] theorem andThen_none (next : Store → World → Option Exit) :
    andThen none next = none := rfl

/-- Make a number of passes through a block, each behind the one before (`andThen`). -/
def passes (body : Store → World → Option Exit) : Nat → Store → World → Option Exit
  | 0, locals, w => some (.through locals w)
  | n + 1, locals, w => andThen (body locals w) (passes body n)

end Exit

/-- What stays the same while a block is executed: the `engine`, the numbers of passes that a
loop may make (`admits`), how functions are called, and the `function` and `args` of the call.
-/
structure Setting where
  engine : Engine
  admits : Int → Bool
  call : String → Store → World → Option Conclusion
  function : Function
  args : Store

namespace Setting

/-- The scopes of a statement, as `Activation.memory` has them. -/
def memory (S : Setting) (locals : Store) (w : World) : Memory := ⟨S.args, locals, w.globals⟩

/-- Log an error of the statement at `pos`, in the wording of `Activation.describe`. -/
def report (S : Setting) (pos : Nat) (form : Form) (text : String) (w : World) : World :=
  w.log .error
    (S.function.name ++ "[" ++ toString pos ++ "] " ++ form.name ++ ": " ++ text)

/-- Take over the scopes that an assignment leaves; one that fails is left out with a message.
The counterpart of `Activation.commit`. -/
def assigned (S : Setting) (pos : Nat) (form : Form) (locals : Store) (w : World) :
    Except (Failure BindingError) Memory → Exit
  | .error (.error e) => .through locals (S.report pos form e.message w)
  | .error .unwritable => .ended (.error .unwritable) w
  | .ok m => .through m.locals { w with globals := m.globals }

/-- Go on after what a statement called. The counterpart of `Engine.resume`. -/
def resumed {α : Type} (S : Setting) (locals : Store) (r : Except (Failure Fault) α)
    (w : World) : Exit :=
  match r with
  | .ok _ => .through locals w
  | .error f => if S.engine.tolerates f then .through locals w else .ended (.error f) w

/-- Go on after a function that a statement called. A refusal in it is one of the whole call. -/
def afterCall (S : Setting) (locals : Store) : Conclusion → Exit
  | .outcome o => S.resumed locals o.result o.world
  | .refused count w => .concluded (.refused count w)

/-- Return the value of an expression. Whatever becomes of it, the call is over. The counterpart
of `Activation.ret`. -/
def returned (S : Setting) (pos : Nat) (s : Statement) (locals : Store) (w : World) : Exit :=
  match Scopes.eval (S.memory locals w).scopes (.parse s.content) with
  | .error cycle => .ended (.ok none) (S.report pos .ret cycle.message w).forgetReturn
  | .ok none =>
      .ended (.ok none)
        (S.report pos .ret ("undefined value " ++ Text.quote s.content) w).forgetReturn
  | .ok (some v) =>
      if v.isEmpty then .ended (.ok none) w.forgetReturn
      else .ended (.ok (some v)) (w.keepReturn v)

/-- Execute a statement that is no bracket of a loop. The counterpart of `Engine.step`. -/
def perform (S : Setting) (pos : Nat) (s : Statement) (locals : Store) (w : World) :
    Option Exit :=
  let m := S.memory locals w
  match s.form with
  | .callInstruction =>
    match m.actuals s with
    | .error e => some (.through locals (S.report pos s.form e.message w))
    | .ok actuals =>
      let (r, w) := S.engine.send s.content actuals w
      some (S.resumed locals r w)
  | .callFunction =>
    match m.actuals s with
    | .error e => some (.through locals (S.report pos s.form e.message w))
    | .ok actuals => (S.call s.content actuals w).map (S.afterCall locals)
  | .ret => some (S.returned pos s locals w)
  | .setVar => some (S.assigned pos s.form locals w (m.setVar s))
  | .setLocal => some (S.assigned pos s.form locals w (m.setLocalStatement s))
  | .setGlobal => some (S.assigned pos s.form locals w (m.setGlobalStatement s))
  | .loop | .endLoop => some (.through locals w)

/-- The message about a loop whose `Activation.loopCount` fails. -/
def countText (e : Activation.CountError) : String :=
  "invalid " ++ Statement.countArg ++ ", loop skipped: " ++ e.message

end Setting

/-- Execute a block whose first statement stands at `pos`, by recursion on the block. Positions
only show in messages. -/
def Block.run (S : Setting) : (pos : Nat) → Block → Store → World → Option Exit
  | _, .done, locals, w => some (.through locals w)
  | pos, .plain s _ rest, locals, w =>
      Exit.andThen (S.perform pos s locals w) (Block.run S (pos + 1) rest)
  | pos, .loop s _ body _ _ rest, locals, w =>
      match Activation.loopCount (S.memory locals w) s with
      | .error e =>
          Block.run S (pos + body.size + 2) rest locals
            (S.report pos .loop (Setting.countText e) w)
      | .ok n =>
          if S.admits n then
            Exit.andThen (Exit.passes (Block.run S (pos + 1) body) n.toNat locals w)
              (Block.run S (pos + body.size + 2) rest)
          else some (.concluded (.refused n w))

/-! ### Calls -/

/-- The block that a call of a function executes, and the fault that ends the call behind it. A
function whose loops do not pair up executes `Block.leading` only, the statements in front of
the first bracket. -/
def Function.outline (f : Function) : Block × Option LoopFault :=
  match Block.parse? f.body, f.loopIndex with
  | some b, _ => (b, none)
  | none, .error e => (.leading f.body, some e)
  | none, .ok _ => (.leading f.body, none)

/-- How a call is over whose block has ended: by the `fault?` behind the block, if there is one.
-/
def Exit.conclude (fault? : Option LoopFault) : Exit → Conclusion
  | .concluded c => c
  | .through _ w =>
    match fault? with
    | none => .outcome ⟨.ok none, w.forgetReturn⟩
    | some e => .outcome ⟨.error (.error (.structural e)), w.log .fatal e.message⟩

namespace Engine

/-- Execute the body of a function, as its `Function.outline` has it. Without enough `levels`
for its nested calls there is no answer. -/
def interpret (E : Engine) (admits : Int → Bool) :
    (levels : Nat) → (depth : Int) → Function → Store → World → Option Conclusion
  | 0, _, _, _, _ => none
  | levels + 1, depth, f, args, w =>
    let call := fun name args w =>
      match E.entry (depth + 1) name w with
      | .error o => some (.outcome o)
      | .ok f =>
        interpret E admits levels (depth + 1) f args (w.record (.enter name)).forgetReturn
    (f.outline.1.run ⟨E, admits, call, f, args⟩ 0 args w).map (·.conclude f.outline.2)

/-- Call the function `name`: enter it as the machine does (`Engine.entry`), and `interpret` its
body. -/
def interpretCall (E : Engine) (admits : Int → Bool) (levels : Nat) (depth : Int) (name : String)
    (args : Store) (w : World) : Option Conclusion :=
  match E.entry depth name w with
  | .error o => some (.outcome o)
  | .ok f => E.interpret admits levels depth f args (w.record (.enter name)).forgetReturn

/-- Execute a function, registered or not, whose body is the block `b`. -/
def executeBlock (E : Engine) (admits : Int → Bool) (levels : Nat) (depth : Int) (f : Function)
    (b : Block) (args : Store) (w : World) : Option Conclusion :=
  (b.run ⟨E, admits, E.interpretCall admits levels (depth + 1), f, args⟩ 0 args
    w.forgetReturn).map (·.conclude none)

/-- A function whose body is the block `b` is interpreted by executing that block. -/
theorem interpret_of_parse? {E : Engine} {f : Function} {b : Block}
    (hb : Block.parse? f.body = some b) (admits : Int → Bool) (levels : Nat) (depth : Int)
    (args : Store) (w : World) :
    E.interpret admits (levels + 1) depth f args w.forgetReturn =
      E.executeBlock admits levels depth f b args w := by
  have hf : f.outline = (b, none) := by simp only [Function.outline, hb]
  rw [interpret, hf]
  rfl

end Engine

/-! ### Two choices of admitted numbers -/

/-- Two answers are the same and no `refusal`, or the first is the refusal of a number that
`admits` does not admit. -/
def AgreeUnlessRefused {α : Type} (admits : Int → Bool) (refusal : Int → World → α)
    (x y : Option α) : Prop :=
  (x = y ∧ ∀ n w, x ≠ some (refusal n w)) ∨ ∃ n w, x = some (refusal n w) ∧ admits n = false

/-- The end of a block in which a loop is refused the number `n` of passes. -/
def Exit.refusal (n : Int) (w : World) : Exit := .concluded (.refused n w)

namespace AgreeUnlessRefused

variable {admits admits' : Int → Bool}

/-- An answer that is no refusal agrees with itself. -/
theorem refl_of_ne {α : Type} {refusal : Int → World → α} {x : α}
    (h : ∀ n w, x ≠ refusal n w) : AgreeUnlessRefused admits refusal (some x) (some x) :=
  .inl ⟨rfl, fun n w e => h n w (Option.some.inj e)⟩

theorem through (locals : Store) (w : World) :
    AgreeUnlessRefused admits Exit.refusal (some (.through locals w))
      (some (.through locals w)) :=
  refl_of_ne fun _ _ e => nomatch e

theorem ended (result : Except (Failure Fault) (Option Tagged)) (w : World) :
    AgreeUnlessRefused admits Exit.refusal (some (.ended result w)) (some (.ended result w)) :=
  refl_of_ne fun _ _ e => nomatch e

/-- An assignment ends alike in two settings of one function. -/
theorem assigned {S S' : Setting} (hf : S.function = S'.function) (pos : Nat) (form : Form)
    (locals : Store) (w : World) (r : Except (Failure BindingError) Memory) :
    AgreeUnlessRefused admits Exit.refusal (some (S.assigned pos form locals w r))
      (some (S'.assigned pos form locals w r)) := by
  unfold Setting.assigned Setting.report
  rw [hf]
  split
  · exact through ..
  · exact ended ..
  · exact through ..

/-- What follows a call is alike in two settings of one engine. -/
theorem resumed {α : Type} {S S' : Setting} (hE : S.engine = S'.engine) (locals : Store)
    (r : Except (Failure Fault) α) (w : World) :
    AgreeUnlessRefused admits Exit.refusal (some (S.resumed locals r w))
      (some (S'.resumed locals r w)) := by
  unfold Setting.resumed
  rw [hE]
  split
  · exact through ..
  · split
    · exact through ..
    · exact ended ..

/-- Blocks that agree, with continuations that agree, agree as a whole: a refusal in the first
block is one of the whole. -/
theorem andThen {x y : Option Exit} {next next' : Store → World → Option Exit}
    (h : AgreeUnlessRefused admits Exit.refusal x y)
    (hnext : ∀ locals w,
      AgreeUnlessRefused admits Exit.refusal (next locals w) (next' locals w)) :
    AgreeUnlessRefused admits Exit.refusal (Exit.andThen x next) (Exit.andThen y next') := by
  rcases h with ⟨rfl, hne⟩ | ⟨n, w, rfl, hn⟩
  · cases x with
    | none => exact .inl ⟨rfl, by simp⟩
    | some exit =>
        cases exit with
        | through locals w => exact hnext locals w
        | concluded c => exact .inl ⟨rfl, hne⟩
  · exact .inr ⟨n, w, rfl, hn⟩

/-- Any number of passes agree if single passes do. -/
theorem passes {body body' : Store → World → Option Exit}
    (h : ∀ locals w, AgreeUnlessRefused admits Exit.refusal (body locals w) (body' locals w))
    (n : Nat) (locals : Store) (w : World) :
    AgreeUnlessRefused admits Exit.refusal (Exit.passes body n locals w)
      (Exit.passes body' n locals w) := by
  induction n generalizing locals w with
  | zero => exact through ..
  | succ n ih => exact andThen (h locals w) ih

variable {E : Engine} {f : Function} {args : Store}
  {call call' : String → Store → World → Option Conclusion}

/-- A statement that is no bracket ends alike, if the calls that it makes agree. -/
theorem perform
    (hcall : ∀ name args w,
      AgreeUnlessRefused admits .refused (call name args w) (call' name args w))
    (pos : Nat) (s : Statement) (locals : Store) (w : World) :
    AgreeUnlessRefused admits Exit.refusal
      (Setting.perform ⟨E, admits, call, f, args⟩ pos s locals w)
      (Setting.perform ⟨E, admits', call', f, args⟩ pos s locals w) := by
  unfold Setting.perform Setting.memory
  cases s.form with
  | callInstruction =>
      dsimp only
      split
      · exact through ..
      · exact resumed rfl ..
  | callFunction =>
      dsimp only
      split
      · exact through ..
      · rename_i actuals _
        -- a callee that is refused ends the caller by the same refusal
        rcases hcall s.content actuals w with ⟨heq, hne⟩ | ⟨n, w', hr, hn⟩
        · rw [heq] at hne ⊢
          cases hc : call' s.content actuals w with
          | none => exact .inl ⟨rfl, by simp⟩
          | some c =>
              cases c with
              | outcome o => exact resumed rfl ..
              | refused n w' => exact absurd hc (hne n w')
        · rw [hr]
          exact .inr ⟨n, w', rfl, hn⟩
  | ret =>
      simp only [Setting.returned, Setting.memory, Setting.report]
      split
      · exact ended ..
      · exact ended ..
      · split
        · exact ended ..
        · exact ended ..
  | setVar => exact assigned rfl ..
  | setLocal => exact assigned rfl ..
  | setGlobal => exact assigned rfl ..
  | loop => exact through ..
  | endLoop => exact through ..

/-- A block ends alike with more numbers admitted, unless it is refused: by induction on the
block, where only `Block.loop` looks at `admits`. -/
theorem run (hadm : ∀ n, admits n = true → admits' n = true)
    (hcall : ∀ name args w,
      AgreeUnlessRefused admits .refused (call name args w) (call' name args w))
    (b : Block) (pos : Nat) (locals : Store) (w : World) :
    AgreeUnlessRefused admits Exit.refusal
      (b.run ⟨E, admits, call, f, args⟩ pos locals w)
      (b.run ⟨E, admits', call', f, args⟩ pos locals w) := by
  induction b generalizing pos locals w with
  | done => exact through ..
  | plain s hs rest ih => exact andThen (perform hcall pos s locals w) (ih (pos + 1))
  | loop s hs body close hc rest ihb ihr =>
      simp only [Block.run, Setting.memory, Setting.report]
      split
      · exact ihr ..
      · rename_i n _
        by_cases hn : admits n = true
        · rw [if_pos hn, if_pos (hadm n hn)]
          exact andThen (passes (ihb (pos + 1)) n.toNat locals w) (ihr _)
        · rw [if_neg hn]
          exact .inr ⟨n, w, rfl, by simpa using hn⟩

/-- Blocks that agree conclude their calls alike. -/
theorem conclude {x y : Option Exit} (fault? : Option LoopFault)
    (h : AgreeUnlessRefused admits Exit.refusal x y) :
    AgreeUnlessRefused admits Conclusion.refused (x.map (·.conclude fault?))
      (y.map (·.conclude fault?)) := by
  rcases h with ⟨rfl, hne⟩ | ⟨n, w, rfl, hn⟩
  · refine .inl ⟨rfl, fun n w e => ?_⟩
    obtain ⟨exit, rfl, hexit⟩ := Option.map_eq_some_iff.1 e
    cases exit with
    | through locals w => cases fault? <;> cases hexit
    | concluded c =>
        cases hexit
        exact hne n w rfl
  · exact .inr ⟨n, w, rfl, hn⟩

end AgreeUnlessRefused

/-- Admitting more numbers changes nothing in `interpret`, except for calls that were refused.
-/
theorem Engine.interpret_agree {E : Engine} {admits admits' : Int → Bool}
    (hadm : ∀ n, admits n = true → admits' n = true) (levels : Nat) (depth : Int)
    (f : Function) (args : Store) (w : World) :
    AgreeUnlessRefused admits Conclusion.refused (E.interpret admits levels depth f args w)
      (E.interpret admits' levels depth f args w) := by
  induction levels generalizing depth f args w with
  | zero => exact .inl ⟨rfl, by simp [interpret]⟩
  | succ levels ih =>
      -- the blocks are the same; what is left are the calls, one level down
      refine .conclude f.outline.2 (.run hadm (fun name args w => ?_) f.outline.1 0 args w)
      cases E.entry (depth + 1) name w with
      | error o => exact .refl_of_ne fun _ _ e => nomatch e
      | ok f => exact ih ..

end BusScript
