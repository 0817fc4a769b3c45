import BusScript.Proofs.Turn

/-!
# Kept indices make no difference

A function may keep the index of its loops. Here all kept indices are dropped, those
of the functions that are registered and that of the function that is being run, and
runs stay as they are: `run_forget`. Nothing but `Function.loopIndex` looks at a kept
index, so each part of the machine commutes with forgetting.
-/

namespace BusScript

namespace Assoc

variable {α β : Type}

/-- Put the values `f` gives under the names of a list, in the same order. -/
def mapValues (f : α → β) (l : List (String × α)) : List (String × β) :=
  l.map fun b => (b.1, f b.2)

/-- A look-up in `mapValues f l` finds what `f` makes of the value in `l`. -/
theorem lookup_mapValues (f : α → β) (l : List (String × α)) (name : String) :
    (mapValues f l).lookup name = (l.lookup name).map f := by
  induction l with
  | nil => rfl
  | cons b l ih =>
      obtain ⟨n, a⟩ := b
      show ((n, f a) :: mapValues f l).lookup name = _
      rw [lookup_cons, lookup_cons, ih]
      split <;> rfl

/-- Binding a name commutes with `mapValues`. -/
theorem mapValues_put (f : α → β) (name : String) (a : α) (l : List (String × α)) :
    mapValues f (put name a l) = put name (f a) (mapValues f l) := by
  induction l with
  | nil => rfl
  | cons b l ih =>
      obtain ⟨n, c⟩ := b
      show mapValues f (if n = name then _ else _) = if n = name then _ else _
      split
      · rfl
      · exact congrArg ((n, f c) :: ·) ih

end Assoc

/-- A function without its kept `index?`. -/
def Function.forget (f : Function) : Function := .make f.name f.params f.body f.note

/-- Forgetting costs the time to build an index, and nothing else: `loopIndex` stays. -/
theorem Function.loopIndex_forget (f : Function) : f.forget.loopIndex = f.loopIndex := by
  rw [loopIndex_eq_ofBody, loopIndex_eq_ofBody]
  rfl

/-- The same state of a call, of the function without its kept index. -/
def Activation.forget (a : Activation) : Activation := { a with function := a.function.forget }

/-- A turn of a call, with `Activation.forget` for the state to go on from. -/
def Turn.forget : Turn → Turn
  | .next a w => .next a.forget w
  | .stop f w => .stop f w

/-- An engine whose functions keep no index. -/
def Engine.forget (E : Engine) : Engine :=
  { E with functions := Assoc.mapValues Function.forget E.functions }

/-! ### Statements -/

namespace Activation

variable {a : Activation} {s : Statement} {w : World}

@[simp] theorem forget_pos (a : Activation) : a.forget.pos = a.pos := rfl

@[simp] theorem forget_loops (a : Activation) : a.forget.loops = a.loops := rfl

@[simp] theorem forget_memory (a : Activation) (w : World) : a.forget.memory w = a.memory w := rfl

/-- Starting a pass looks at the given `index` only. -/
theorem pass_forget (a : Activation) (index : LoopIndex) (k : Counter) :
    a.forget.pass index k = (a.pass index k).forget := by
  unfold pass
  dsimp only
  split <;> rfl

/-- An assignment does not see the kept index. -/
theorem commit_forget (form : Form) (m? : Except (Failure BindingError) Memory) :
    a.forget.commit form w m? = (a.commit form w m?).forget := by
  unfold commit
  split <;> rfl

/-- Entering a loop, or going on with it, does not see the kept index beyond the given one. -/
theorem loop_forget (index : LoopIndex) : a.forget.loop s w index = (a.loop s w index).forget := by
  simp only [loop, forget_pos, forget_loops, forget_memory]
  cases a.loops.lookup a.pos with
  | some k => exact congrArg (Turn.next · w) (pass_forget a index k)
  | none =>
      cases loopCount (a.memory w) s with
      | error e => rfl
      | ok n =>
          dsimp only
          split
          · exact congrArg (Turn.next · w) (pass_forget a index ⟨0, n⟩)
          · rfl

/-- The one place where the kept index is used: `withIndex` hands on the same index, so that
what follows decides. -/
theorem withIndex_forget {go go' : LoopIndex → Turn} (h : ∀ index, go' index = (go index).forget) :
    a.forget.withIndex w go' = (a.withIndex w go).forget := by
  have hindex : a.forget.function.loopIndex = a.function.loopIndex :=
    a.function.loopIndex_forget
  simp only [withIndex, hindex]
  cases a.function.loopIndex with
  | ok index => exact h index
  | error e => rfl

/-- Returning does not see the kept index. -/
theorem ret_forget : a.forget.ret s w = (a.ret s w).forget := by
  simp only [ret, forget_memory]
  cases Scopes.eval (a.memory w).scopes (.parse s.content) with
  | error cycle => rfl
  | ok v? =>
      cases v? with
      | none => rfl
      | some v =>
          dsimp only
          split <;> rfl

end Activation

/-! ### Runs -/

namespace Engine

variable {E : Engine}

theorem findFunction?_forget (E : Engine) (name : String) :
    E.forget.findFunction? name = (E.findFunction? name).map Function.forget :=
  Assoc.lookup_mapValues Function.forget E.functions name

/-- A function is entered, or refused with the same outcome, whether it keeps an index or not.
-/
theorem entry_forget (E : Engine) (depth : Int) (name : String) (w : World) :
    E.forget.entry depth name w = (E.entry depth name w).map Function.forget := by
  have hexceeded : E.forget.exceeded? depth = E.exceeded? depth := rfl
  rw [entry, entry, findFunction?_forget, hexceeded]
  cases E.findFunction? name with
  | none => rfl
  | some f =>
      cases E.exceeded? depth with
      | none => rfl
      | some limit =>
          simp only [Option.map_some]
          cases Failure.showing [depth, limit] (Fault.depth depth limit name) <;> rfl

theorem resume_forget {α : Type} (a : Activation) (r : Except (Failure Fault) α) (w : World) :
    E.forget.resume a.forget r w = (E.resume a r w).forget := by
  cases r with
  | ok v => rfl
  | error f =>
      show (if E.tolerates f then _ else _) = (if E.tolerates f then _ else _ : Turn).forget
      split <;> rfl

/-- A step of an engine that keeps no index is the step of the engine, with the index forgotten
in its turn. -/
theorem step_forget (call : String → Store → World → Option Outcome) (a : Activation)
    (s : Statement) (w : World) :
    E.forget.step call a.forget s w = (E.step call a s w).map Turn.forget := by
  unfold step
  cases s.form with
  | callInstruction =>
      simp only [Activation.forget_memory]
      cases (a.memory w).actuals s with
      | error e => rfl
      | ok actuals => exact congrArg some (resume_forget a _ _)
  | callFunction =>
      simp only [Activation.forget_memory]
      cases (a.memory w).actuals s with
      | error e => rfl
      | ok actuals =>
          dsimp only
          cases call s.content actuals w with
          | none => rfl
          | some o => exact congrArg some (resume_forget a _ _)
  | loop => exact congrArg some (Activation.withIndex_forget fun _ => Activation.loop_forget _)
  | endLoop => exact congrArg some (Activation.withIndex_forget fun _ => rfl)
  | ret => exact congrArg some Activation.ret_forget
  | setVar => exact congrArg some (Activation.commit_forget _ _)
  | setLocal => exact congrArg some (Activation.commit_forget _ _)
  | setGlobal => exact congrArg some (Activation.commit_forget _ _)

/-- A run is the same without any kept index: by induction on the fuel, from `step_forget`. -/
theorem run_forget (E : Engine) (fuel : Nat) (depth : Int) (a : Activation) (w : World) :
    E.forget.run fuel depth a.forget w = E.run fuel depth a w := by
  induction fuel generalizing depth a w with
  | zero => rfl
  | succ fuel ih =>
      cases hs : a.current? with
      | none =>
          have hs' : a.forget.current? = none := hs
          rw [run_of_over hs, run_of_over hs']
          rfl
      | some s =>
          have hs' : a.forget.current? = some s := hs
          have hcall : E.forget.call fuel (depth + 1) = E.call fuel (depth + 1) := by
            funext name args w
            rw [call_eq, call_eq, entry_forget]
            cases E.entry (depth + 1) name w with
            | error o => rfl
            | ok f => exact ih (depth + 1) (.start f args) _
          rw [run_of_current? hs, run_of_current? hs', hcall, step_forget]
          cases E.step (E.call fuel (depth + 1)) a s w with
          | none => rfl
          | some t =>
              cases t with
              | stop f w => rfl
              | next a w => exact ih depth a w

/-- A call is the same without any kept index. -/
theorem call_forget (E : Engine) (fuel : Nat) (depth : Int) (name : String) (args : Store)
    (w : World) : E.forget.call fuel depth name args w = E.call fuel depth name args w := by
  rw [call_eq, call_eq, entry_forget]
  cases E.entry depth name w with
  | error o => rfl
  | ok f => exact E.run_forget fuel depth (.start f args) _

end Engine

end BusScript
