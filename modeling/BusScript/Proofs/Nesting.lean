import BusScript.Proofs.Termination

/-!
# The configurations of a call

A call comes to many configurations before it ends: its own, statement by
statement, and those of the calls that it makes. `Visits` relates a
configuration to all that are met from it on.

How deep the visited configurations lie is how much of a stack the call takes.
Nothing but a stack without bound keeps a call from an outcome:
`exists_call_of_nesting`.
-/

namespace BusScript

/-- A point of a run: the `depth` of nesting, the state of the call there and the world. -/
structure Configuration where
  depth : Int
  activation : Activation
  world : World

/-- The first configuration of the function `f` that a call of `name` has entered. -/
def Configuration.entered (depth : Int) (name : String) (f : Function) (args : Store)
    (w : World) : Configuration :=
  ⟨depth, .start f args, (w.record (.enter name)).forgetReturn⟩

namespace Engine

/-- From a configuration, a run comes to another one: in the same call, or in one that a
`callFunction` makes on the way. -/
inductive Visits (E : Engine) : Configuration → Configuration → Prop
  | here (c : Configuration) : Visits E c c
  | next {depth : Int} {a a' : Activation} {w w' : World} {s : Statement} {fuel : Nat}
      {c : Configuration} (hs : a.current? = some s)
      (hstep : E.step (E.call fuel (depth + 1)) a s w = some (.next a' w'))
      (h : Visits E ⟨depth, a', w'⟩ c) : Visits E ⟨depth, a, w⟩ c
  | call {depth : Int} {a : Activation} {w : World} {s : Statement} {actuals : Store}
      {f : Function} {c : Configuration} (hs : a.current? = some s)
      (hform : s.form = .callFunction) (hactuals : (a.memory w).actuals s = .ok actuals)
      (hentry : E.entry (depth + 1) s.content w = .ok f)
      (h : Visits E (.entered (depth + 1) s.content f actuals w) c) : Visits E ⟨depth, a, w⟩ c

variable {E : Engine}

/-- The step of a `callFunction` whose arguments have values: the call, and what `resume` makes
of it. -/
theorem step_callFunction {call : String → Store → World → Option Outcome} {a : Activation}
    {s : Statement} {w : World} {actuals : Store} (hform : s.form = .callFunction)
    (hactuals : (a.memory w).actuals s = .ok actuals) :
    E.step call a s w =
      (call s.content actuals w).map fun o => E.resume a o.result o.world := by
  simp only [step, hform, hactuals]

/-- How functions are called matters to no other statement than `callFunction`. -/
theorem step_of_form_ne {call call' : String → Store → World → Option Outcome} {a : Activation}
    {s : Statement} {w : World} (hform : s.form ≠ .callFunction) :
    E.step call a s w = E.step call' a s w := by
  unfold step
  cases hs : s.form with
  | callFunction => exact absurd hs hform
  | _ => rfl

/-- Below `maxCallDepth` lies all that calls visit. -/
theorem depth_le_of_visits {limit : Int} (hlimit : E.maxCallDepth = some limit)
    {c c' : Configuration} (h : E.Visits c c') (hc : c.depth ≤ limit) : c'.depth ≤ limit := by
  induction h with
  | here c => exact hc
  | next hs hstep h ih => exact ih hc
  | call hs hform hactuals hentry h ih => exact ih (depth_le_of_entry hlimit hentry)

/-! ### Outcomes without a limit -/

/-- The engine with `limit` as its `maxCallDepth`. -/
def limited (E : Engine) (limit : Int) : Engine := { E with maxCallDepth := some limit }

/-- The `limit` matters to nothing but the functions that are called. -/
theorem step_limited (limit : Int) (call : String → Store → World → Option Outcome)
    (a : Activation) (s : Statement) (w : World) :
    (E.limited limit).step call a s w = E.step call a s w := rfl

theorem entry_limited {limit depth : Int} {name : String} {w : World}
    (hnone : E.maxCallDepth = none)
    (hdepth : ∀ f, E.entry depth name w = .ok f → depth ≤ limit) :
    (E.limited limit).entry depth name w = E.entry depth name w := by
  cases hf : E.findFunction? name with
  | none =>
      have hf' : (E.limited limit).findFunction? name = none := hf
      simp only [entry, hf, hf']
  | some f =>
      have hentry : E.entry depth name w = .ok f :=
        entry_eq_ok_iff.2 ⟨hf, by simp [exceeded?, hnone]⟩
      rw [hentry]
      exact entry_eq_ok_iff.2 ⟨hf, by simpa [exceeded?, limited] using hdepth f hentry⟩

theorem call_of_limited {limit : Int} (hnone : E.maxCallDepth = none) {fuel : Nat} {depth : Int}
    {name : String} {args : Store} {w : World} {o : Outcome}
    (hdepth : ∀ f, E.entry depth name w = .ok f → depth ≤ limit)
    (hrun : ∀ f, E.entry depth name w = .ok f →
      (E.limited limit).run fuel depth (.start f args) (w.record (.enter name)).forgetReturn =
        some o →
      E.run fuel depth (.start f args) (w.record (.enter name)).forgetReturn = some o)
    (h : (E.limited limit).call fuel depth name args w = some o) :
    E.call fuel depth name args w = some o := by
  rw [call_eq, entry_limited hnone hdepth] at h
  rw [call_eq]
  cases hf : E.entry depth name w with
  | error o' => simpa only [hf] using h
  | ok f =>
      simp only [hf] at h ⊢
      exact hrun f hf h

/-- A run with a `limit` that it never comes to is a run without one. -/
theorem run_of_limited {limit : Int} (hnone : E.maxCallDepth = none) {fuel : Nat} {depth : Int}
    {a : Activation} {w : World} {o : Outcome}
    (hdepth : ∀ c, E.Visits ⟨depth, a, w⟩ c → c.depth ≤ limit)
    (h : (E.limited limit).run fuel depth a w = some o) : E.run fuel depth a w = some o := by
  induction fuel generalizing depth a w o with
  | zero => simp at h
  | succ fuel ih =>
      cases hs : a.current? with
      | none => rwa [run_of_over hs] at h ⊢
      | some s =>
          rw [run_of_current? hs] at h ⊢
          obtain ⟨t, ht, ho⟩ := Option.bind_eq_some_iff.1 h
          rw [step_limited] at ht
          -- only a statement that calls a function can tell the engines apart
          have hstep : E.step (E.call fuel (depth + 1)) a s w = some t := by
            by_cases hform : s.form = .callFunction
            · cases hm : (a.memory w).actuals s with
              | error e => simpa only [step, hform, hm] using ht
              | ok actuals =>
                  rw [step_callFunction hform hm] at ht ⊢
                  obtain ⟨o', hcall, rfl⟩ := Option.map_eq_some_iff.1 ht
                  have hvisit : ∀ f c, E.entry (depth + 1) s.content w = .ok f →
                      E.Visits (.entered (depth + 1) s.content f actuals w) c → c.depth ≤ limit :=
                    fun f c hf hc => hdepth c (.call hs hform hm hf hc)
                  refine Option.map_eq_some_iff.2 ⟨o', ?_, rfl⟩
                  refine call_of_limited hnone (fun f hf => ?_) (fun f hf => ?_) hcall
                  · exact hvisit f (.entered (depth + 1) s.content f actuals w) hf (.here _)
                  · exact ih fun c => hvisit f c hf
            · rwa [step_of_form_ne hform] at ht
          rw [hstep, Option.bind_some]
          cases t with
          | stop f w => exact ho
          | next a' w' => exact ih (fun c hc => hdepth c (.next hs hstep hc)) ho

/-- A call has an outcome unless the configurations that it `Visits` are nested without bound.
-/
theorem exists_call_of_nesting {bound depth : Int} {name : String} {args : Store} {w : World}
    (hdepth : ∀ f c, E.entry depth name w = .ok f →
      E.Visits (.entered depth name f args w) c → c.depth ≤ bound) :
    ∃ fuel o, E.call fuel depth name args w = some o := by
  cases hlimit : E.maxCallDepth with
  | some limit => exact exists_call_of_limit hlimit depth name args w
  | none =>
      -- with the bound as a limit there is an outcome, and the limit is never met
      obtain ⟨fuel, o, ho⟩ :=
        exists_call_of_limit (E := E.limited bound) rfl depth name args w
      refine ⟨fuel, o, call_of_limited hlimit (fun f hf => ?_) (fun f hf => ?_) ho⟩
      · exact hdepth f (.entered depth name f args w) hf (.here _)
      · exact run_of_limited hlimit fun c => hdepth f c hf

end Engine

end BusScript
