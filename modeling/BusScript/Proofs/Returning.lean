import BusScript.Proofs.Action

/-!
# The value that a call returns

A call hands its value over in two ways: as its result, and in the global
variable `$return`. That variable is open to everybody: statements may bind it,
every nested call forgets what it holds and binds it again. The two agree all
the same when a call completes: `call_returns`.

The invariant is on the state of the call. As long as it has no result, nothing
is known of the variable; the statement that gives it a result binds the
variable and is the last one (`Settled`). A call that comes to its end without
one forgets whatever is there.
-/

namespace BusScript

/-- A world in which a call has returned a value, or none: `$return` holds
exactly that. A value is neither a reference nor empty. -/
structure World.Returned (w : World) (v : Option Tagged) : Prop where
  global : w.globals.get? returnName = v
  isVar : ∀ x, v = some x → x.isVar = false
  isEmpty : ∀ x, v = some x → x.isEmpty = false

theorem World.returned_forgetReturn (w : World) : w.forgetReturn.Returned none where
  global := by simp [forgetReturn, Store.get?_erase]
  isVar := nofun
  isEmpty := nofun

theorem World.returned_keepReturn (w : World) {v : Tagged} (hvar : v.isVar = false)
    (hempty : v.isEmpty = false) : (w.keepReturn v).Returned (some v) where
  global := by simp [keepReturn, Store.get?_set, hempty]
  isVar := by
    intro x hx
    exact Option.some.inj hx ▸ hvar
  isEmpty := by
    intro x hx
    exact Option.some.inj hx ▸ hempty

/-- A call that has a `result` is over, and the result has been kept in `$return`. -/
def Activation.Settled (a : Activation) (w : World) : Prop :=
  ∀ v, a.result = some v → a.current? = none ∧ w.Returned (some v)

namespace Activation

variable {a : Activation} {w : World}

theorem settled_of_none (h : a.result = none) : a.Settled w := by
  intro v hv
  rw [h] at hv
  cases hv

theorem Settled.result_eq_none {s : Statement} (h : a.Settled w) (hs : a.current? = some s) :
    a.result = none := by
  cases hr : a.result with
  | none => rfl
  | some v =>
      have hover := (h v hr).1
      rw [hs] at hover
      cases hover

/-- A call that is `Settled` leaves at its end the value that it returns, or none. -/
theorem Settled.finish (h : a.Settled w) {v : Option Tagged}
    (hv : (a.finish w).result = .ok v) : (a.finish w).world.Returned v := by
  unfold Activation.finish at hv ⊢
  cases hr : a.result with
  | none =>
      simp only [hr, Except.ok.injEq] at hv ⊢
      exact hv ▸ w.returned_forgetReturn
  | some x =>
      simp only [hr, Except.ok.injEq] at hv ⊢
      exact hv ▸ (h x hr).2

end Activation

namespace Engine

variable {E : Engine}

/-- No statement but a `ret` gives the call a `result`. -/
theorem Action.settled {call : String → Store → World → Option Outcome} {a a' : Activation}
    {s : Statement} {w w' : World} (hs : a.current? = some s) (ha : a.Settled w)
    (h : E.Action call a s w (.next a' w')) : a'.Settled w' := by
  have hnone := ha.result_eq_none hs
  generalize ht : Turn.next a' w' = t at h
  cases h with
  | keep hv hne =>
      cases ht
      intro x hx
      cases hx
      exact ⟨Activation.current?_leave _, w.returned_keepReturn (Scopes.isVar_of_eval hv) hne⟩
  | send hform hactuals =>
      rw [(next_of_resume ht).1]
      exact Activation.settled_of_none hnone
  | call hform hactuals hcall =>
      rw [(next_of_resume ht).1]
      exact Activation.settled_of_none hnone
  | unpaired e => cases ht
  | overlong => cases ht
  | _ => cases ht; exact Activation.settled_of_none hnone

/-- A run from a state that is `Settled` leaves the value that it returns. -/
theorem run_returned {fuel : Nat} {depth : Int} {a : Activation} {w : World} {o : Outcome}
    {v : Option Tagged} (ha : a.Settled w) (h : E.run fuel depth a w = some o)
    (hv : o.result = .ok v) : o.world.Returned v := by
  induction fuel generalizing a w with
  | zero => simp at h
  | succ fuel ih =>
      cases hs : a.current? with
      | none =>
          rw [run_of_over hs] at h
          cases h
          exact ha.finish hv
      | some s =>
          rw [run_of_current? hs] at h
          obtain ⟨t, ht, hfollow⟩ := Option.bind_eq_some_iff.1 h
          cases t with
          | stop f w' =>
              cases hfollow
              cases hv
          | next a' w' => exact ih ((action_of_step ht).settled hs ha) hfollow

theorem execute_returned {fuel : Nat} {depth : Int} {f : Function} {args : Store} {w : World}
    {o : Outcome} {v : Option Tagged} (h : E.execute fuel depth f args w = some o)
    (hv : o.result = .ok v) : o.world.Returned v :=
  run_returned (Activation.settled_of_none rfl) h hv

theorem call_returned {fuel : Nat} {depth : Int} {name : String} {args : Store} {w : World}
    {o : Outcome} {v : Option Tagged} (h : E.call fuel depth name args w = some o)
    (hv : o.result = .ok v) : o.world.Returned v := by
  rw [call_eq] at h
  cases hentry : E.entry depth name w with
  | error o' =>
      rw [hentry] at h
      cases h
      -- a call that enters no function has no value
      obtain ⟨f, hf⟩ := result_of_entry hentry
      rw [hf] at hv
      cases hv
  | ok f =>
      rw [hentry] at h
      exact run_returned (Activation.settled_of_none rfl) h hv

/-- **A call leaves the value that it returns.** A call that completes, at any depth, has put
its value into `$return`, and a call without a value has put nothing there; a value is neither a
reference nor empty. The caller goes on in the world where this is so (`Returned`). -/
theorem call_returns (E : Engine) (fuel : Nat) (depth : Int) :
    (∀ name args w o v, E.call fuel depth name args w = some o → o.result = .ok v →
      o.world.Returned v) ∧
    (∀ f args w o v, E.execute fuel depth f args w = some o → o.result = .ok v →
      o.world.Returned v) ∧
    ∀ a s w actuals o v, s.form = .callFunction → (a.memory w).actuals s = .ok actuals →
      E.call fuel (depth + 1) s.content actuals w = some o → o.result = .ok v →
      ∃ u, E.step (E.call fuel (depth + 1)) a s w = some (.next a.advance u) ∧ u.Returned v := by
  refine ⟨?_, ?_, ?_⟩
  · intro name args w o v h hv
    exact call_returned h hv
  · intro f args w o v h hv
    exact execute_returned h hv
  · intro a s w actuals o v hform hactuals hcall hv
    refine ⟨o.world, ?_, call_returned hcall hv⟩
    rw [step_callFunction hform hactuals, hcall, Option.map_some, hv]
    rfl

/-- A function that binds `$return` itself, has it bound by another one, and
returns from inside a loop. -/
def returning : Engine where
  functions :=
    [("f", .make "f" [] [.setGlobal "$return=int:9" "", .callFunction "g" {} "",
      .loop ⟨"int", "2"⟩ "", .ret "var:x" "", .endLoop ""] ""),
    ("g", .make "g" [] [.ret "int:1" ""] "")]

theorem call_returns_returning :
    ∃ o, returning.call 9 0 "f" (.ofList [("x", ⟨"str", "ok"⟩)]) ⟨{}, #[]⟩ = some o ∧
      o.result = .ok (some ⟨"str", "ok"⟩) ∧ o.world.Returned (some ⟨"str", "ok"⟩) := by
  have hrun : (returning.call 9 0 "f" (.ofList [("x", ⟨"str", "ok"⟩)]) ⟨{}, #[]⟩).map
      (·.result) = some (.ok (some ⟨"str", "ok"⟩)) := by
    decide +kernel
  obtain ⟨o, ho, hv⟩ := Option.map_eq_some_iff.1 hrun
  exact ⟨o, ho, hv, (call_returns returning 9 0).1 _ _ _ _ _ ho hv⟩

end Engine

end BusScript
