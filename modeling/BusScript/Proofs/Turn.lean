import BusScript.Execution.Machine

/-!
# One step of a run

A run takes a step and then follows the turn that the step leads to. These are
the equations by which proofs about runs open a run, so that none of them has
to unfold the machine:

* `run_of_current?` — a run that stands at a statement;
* `run_of_over` — a run that stands behind the last statement;
* `call_eq` — a call, in terms of the function that it enters (`entry`).
-/

namespace BusScript

namespace Engine

/-- The function that a call of `name` enters, or the outcome of a call that enters none. -/
def entry (E : Engine) (depth : Int) (name : String) (w : World) : Except Outcome Function :=
  match E.findFunction? name with
  | none =>
    let fault := Fault.unknown .function name
    .error ⟨.error (.error fault), w.log .error fault.message⟩
  | some f =>
    match E.exceeded? depth with
    | some limit =>
      match Failure.showing [depth, limit] (Fault.depth depth limit name) with
      | .error fault => .error ⟨.error (.error fault), w.log .fatal fault.message⟩
      | .unwritable => .error ⟨.error .unwritable, w⟩
    | none => .ok f

/-- What `enter` does, said with `entry`. -/
theorem enter_eq (E : Engine) (depth : Int) (name : String) (args : Store) (w : World)
    (body : Activation → World → Option Outcome) :
    E.enter depth name args w body =
      match E.entry depth name w with
      | .error o => some o
      | .ok f => body (.start f args) (w.record (.enter name)).forgetReturn := by
  unfold enter entry
  cases E.findFunction? name with
  | none => rfl
  | some f =>
      cases E.exceeded? depth with
      | none => rfl
      | some limit =>
          dsimp only
          cases Failure.showing [depth, limit] (Fault.depth depth limit name) <;> rfl

/-- A function is entered exactly if it is found and the depth is not `exceeded?`. -/
theorem entry_eq_ok_iff {E : Engine} {depth : Int} {name : String} {w : World} {f : Function} :
    E.entry depth name w = .ok f ↔ E.findFunction? name = some f ∧ E.exceeded? depth = none := by
  unfold entry
  cases E.findFunction? name with
  | none => simp
  | some g =>
      cases E.exceeded? depth with
      | none => simp
      | some limit =>
          dsimp only
          cases Failure.showing [depth, limit] (Fault.depth depth limit name) <;> simp

/-- A call is the `run` of the function that `entry` gives. -/
theorem call_eq (E : Engine) (fuel : Nat) (depth : Int) (name : String) (args : Store)
    (w : World) :
    E.call fuel depth name args w =
      match E.entry depth name w with
      | .error o => some o
      | .ok f => E.run fuel depth (.start f args) (w.record (.enter name)).forgetReturn :=
  E.enter_eq depth name args w _

/-- Go on with a run after a `Turn`. -/
def follow (E : Engine) (fuel : Nat) (depth : Int) : Turn → Option Outcome
  | .stop f w => some ⟨.error f, w⟩
  | .next a w => E.run fuel depth a w

variable {E : Engine} {depth : Int} {a : Activation} {w : World}

@[simp] theorem follow_stop (fuel : Nat) (f : Failure Fault) :
    E.follow fuel depth (.stop f w) = some ⟨.error f, w⟩ := rfl

@[simp] theorem follow_next (fuel : Nat) : E.follow fuel depth (.next a w) = E.run fuel depth a w :=
  rfl

@[simp] theorem run_zero : E.run 0 depth a w = none := rfl

/-- A run that stands at a statement executes it by `step` and follows the turn. -/
theorem run_of_current? {s : Statement} (hs : a.current? = some s) (fuel : Nat) :
    E.run (fuel + 1) depth a w =
      (E.step (E.call fuel (depth + 1)) a s w).bind (E.follow fuel depth) := by
  have hcall : E.call fuel (depth + 1) = fun name args w =>
      E.enter (depth + 1) name args w fun a w => E.run fuel (depth + 1) a w := rfl
  rw [run, hs, hcall]
  dsimp only
  split
  · rename_i ht
    rw [ht, Option.bind_none]
  · rename_i ht
    rw [ht, Option.bind_some, follow_stop]
  · rename_i ht
    rw [ht, Option.bind_some, follow_next]

/-- A run that stands behind the last statement is over, and leaves what `finish` gives. -/
theorem run_of_over (hs : a.current? = none) (fuel : Nat) :
    E.run (fuel + 1) depth a w = some (a.finish w) := by
  rw [run, hs]

/-- More `fuel` never changes where a turn leads. -/
theorem follow_mono {n m : Nat} {t : Turn} {o : Outcome} (hnm : n ≤ m)
    (h : E.follow n depth t = some o) : E.follow m depth t = some o := by
  cases t with
  | stop f w => exact h
  | next a w => exact run_mono hnm h

/-- More `fuel` never changes the outcome of a call. -/
theorem call_mono {n m : Nat} {name : String} {args : Store} {o : Outcome} (hnm : n ≤ m)
    (h : E.call n depth name args w = some o) : E.call m depth name args w = some o := by
  rw [call_eq] at h ⊢
  cases hf : E.entry depth name w with
  | error o' => simpa only [hf] using h
  | ok f =>
      simp only [hf] at h ⊢
      exact run_mono hnm h

end Engine

namespace Activation

theorem current?_leave (a : Activation) : a.leave.current? = none := by
  simp [current?, leave, goto, Function.size]

end Activation

end BusScript
