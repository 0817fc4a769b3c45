import BusScript.Proofs.DepthLimit
import BusScript.Proofs.FailStop
import BusScript.Proofs.Emission

/-!
# Programs without recursion

Functions call one another by name. If names have a **rank** that every call of
a registered function lowers, no call comes back to a function that is being
executed, and the nesting of calls is bounded before anything is run: a call of
rank `r` has at most `r` calls below it, whatever its loops, arguments and
errors are (`depth_le_of_ranked`).

Such a program needs no limit on the depth of calls to come to an end, and a
limit that leaves room for the rank is never noticed: `ranked_calls`. A call of
a name that is not registered lowers nothing. It is reported as a missing
definition before its depth is looked at, so it needs no room either.
-/

namespace BusScript

namespace Engine

/-- Calls lower the `rank`: a statement of a registered function that calls a registered
function names one of smaller rank. -/
def Ranked (E : Engine) (rank : String → Nat) : Prop :=
  ∀ name f, E.findFunction? name = some f → ∀ s ∈ f.body, s.form = .callFunction →
    ∀ g, E.findFunction? s.content = some g → rank s.content < rank name

/-- The depth of a configuration leaves room for the `rank` of its function below `bound`. -/
def HasRoom (E : Engine) (rank : String → Nat) (bound : Int) (c : Configuration) : Prop :=
  ∃ name, E.findFunction? name = some c.activation.function ∧ c.depth + rank name ≤ bound

/-- The statement of a configuration calls a registered function that would be
nested too deeply. -/
inductive Overreaches (E : Engine) (c : Configuration) : Prop
  | intro {s : Statement} {actuals : Store} {f : Function} {limit : Int}
      (hs : c.activation.current? = some s) (hform : s.form = .callFunction)
      (hactuals : (c.activation.memory c.world).actuals s = .ok actuals)
      (hf : E.findFunction? s.content = some f)
      (hlimit : E.exceeded? (c.depth + 1) = some limit) : Overreaches E c

variable {E : Engine} {rank : String → Nat} {bound depth : Int} {name : String} {args : Store}
  {w : World} {c c' : Configuration}

/-! ### Depth and rank -/

/-- A function that is called has room if its caller has: one level deeper, the `rank` is
smaller by one at least. -/
theorem HasRoom.of_call {s : Statement} {f : Function} (hrank : E.Ranked rank)
    (hc : E.HasRoom rank bound c) (hs : c.activation.current? = some s)
    (hform : s.form = .callFunction) (hf : E.findFunction? s.content = some f) (args' : Store) :
    E.HasRoom rank bound (.entered (c.depth + 1) s.content f args' c.world) := by
  obtain ⟨name, hname, hroom⟩ := hc
  have hlt := hrank name _ hname s (List.mem_of_getElem? hs) hform f hf
  refine ⟨s.content, hf, ?_⟩
  show c.depth + 1 + rank s.content ≤ bound
  omega

/-- All that is visited has room if the first configuration has: `HasRoom` is an invariant of
steps and of calls. -/
theorem HasRoom.of_visits (hrank : E.Ranked rank) (h : E.Visits c c')
    (hc : E.HasRoom rank bound c) : E.HasRoom rank bound c' := by
  induction h with
  | here c => exact hc
  | next hs hstep h ih =>
      obtain ⟨name, hname, hroom⟩ := hc
      have hfunction := (action_of_step hstep).function_eq
      exact ih ⟨name, hname.trans (congrArg some hfunction.symm), hroom⟩
  | call hs hform hactuals hentry h ih =>
      exact ih (hc.of_call hrank hs hform (entry_eq_ok_iff.1 hentry).1 _)

theorem hasRoom_of_visits (hrank : E.Ranked rank)
    (h : (Command.call name args depth).Visits E w c) :
    E.HasRoom rank (depth + rank name) c := by
  cases h with
  | call hentry hvisit =>
      have hfirst := (entry_eq_ok_iff.1 hentry).1
      exact .of_visits hrank hvisit ⟨name, hfirst, Int.le_refl _⟩

/-- Calls are nested no more deeply than the `rank` of the first one. -/
theorem depth_le_of_ranked (hrank : E.Ranked rank)
    (h : (Command.call name args depth).Visits E w c) : c.depth ≤ depth + rank name := by
  obtain ⟨name', -, hroom⟩ := hasRoom_of_visits hrank h
  omega

/-! ### Limits that are never met -/

/-- A configuration with room below the limit does not overreach (`Overreaches`): the function
that it calls has a smaller rank. -/
theorem HasRoom.not_overreaches (hrank : E.Ranked rank) (hc : E.HasRoom rank bound c)
    (hbound : ∀ limit, E.maxCallDepth = some limit → bound ≤ limit) : ¬ E.Overreaches c := by
  rintro ⟨hs, hform, -, hf, hlimit⟩
  obtain ⟨hmax, hlt⟩ := exceeded?_eq_some_iff.1 hlimit
  have hle := hbound _ hmax
  obtain ⟨name, -, hroom⟩ := hc.of_call hrank hs hform hf {}
  replace hroom : c.depth + 1 + rank name ≤ bound := hroom
  omega

/-- Whoever raises `Fault.depth` overreaches. -/
theorem Raises.overreaches {level limit : Int} {function : String}
    (h : E.Raises c (.depth level limit function)) : E.Overreaches c := by
  cases h with
  | send hsends hr => cases hr
  | entry hs hform hactuals hr =>
      cases hr with
      | depth hf hlimit hdepth hwritable => exact ⟨hs, hform, hactuals, hf, hlimit⟩

/-- A call that is `Refused` was too deep itself, or some configuration that it visits
overreaches. -/
theorem overreaches_of_refused {fuel : Nat} {o : Outcome}
    (h : E.call fuel depth name args w = some o) (hrefused : o.Refused) :
    (∃ limit, E.exceeded? depth = some limit) ∨
      ∃ c, (Command.call name args depth).Visits E w c ∧ E.Overreaches c := by
  obtain ⟨result, w'⟩ := o
  obtain ⟨level, limit, function, rfl⟩ := hrefused
  rw [call_eq] at h
  cases hentry : E.entry depth name w with
  | error o' =>
      rw [hentry] at h
      cases h
      cases (entry_eq_fault_iff.1 hentry).1 with
      | depth hf hlimit hdepth hwritable => exact .inl ⟨limit, hlimit⟩
  | ok f =>
      rw [hentry] at h
      obtain ⟨c, hvisit, hr, -⟩ := exists_raises_of_run h
      exact .inr ⟨c, .call hentry hvisit, hr.overreaches⟩

/-- **Programs without recursion need no limit.** If calls lower a rank (`Ranked`), every call
has an outcome, also without a limit on the depth of calls, and nothing lies deeper below it
than its rank. Under a limit that leaves room for the rank, no call is refused: not the first
one, none that is made on the way, and hence none in the end. -/
theorem ranked_calls (hrank : E.Ranked rank) (depth : Int) (name : String) (args : Store)
    (w : World) :
    (∃ n o, ∀ fuel, n ≤ fuel → E.call fuel depth name args w = some o) ∧
    (∀ c, (Command.call name args depth).Visits E w c → c.depth ≤ depth + rank name) ∧
    ((∀ limit, E.maxCallDepth = some limit → depth + rank name ≤ limit) →
      E.exceeded? depth = none ∧
      (∀ c, (Command.call name args depth).Visits E w c → ¬ E.Overreaches c) ∧
      ∀ fuel o, E.call fuel depth name args w = some o → ¬ o.Refused) := by
  refine ⟨?_, fun c => depth_le_of_ranked hrank, fun hbound => ?_⟩
  · have hdepth : ∀ f c, E.entry depth name w = .ok f →
        E.Visits (.entered depth name f args w) c → c.depth ≤ depth + rank name :=
      fun f c hentry hvisit => depth_le_of_ranked hrank (.call hentry hvisit)
    obtain ⟨n, o, ho⟩ := exists_call_of_nesting hdepth
    exact ⟨n, o, fun fuel hfuel => call_mono hfuel ho⟩
  · have hfirst : ∀ limit, E.exceeded? depth ≠ some limit := by
      intro limit hlimit
      obtain ⟨hmax, hlt⟩ := exceeded?_eq_some_iff.1 hlimit
      have hle := hbound limit hmax
      omega
    have hothers : ∀ c, (Command.call name args depth).Visits E w c → ¬ E.Overreaches c :=
      fun c hvisit => (hasRoom_of_visits hrank hvisit).not_overreaches hrank hbound
    refine ⟨Option.eq_none_iff_forall_ne_some.2 hfirst, hothers, ?_⟩
    intro fuel o ho hrefused
    rcases overreaches_of_refused ho hrefused with ⟨limit, hlimit⟩ | ⟨c, hvisit, hc⟩
    · exact hfirst limit hlimit
    · exact hothers c hvisit hc

/-- Functions that share a callee, called from inside a loop and by way of one
another, and a call of a name that is not registered. -/
def layered (limit : Option Int) : Engine where
  maxCallDepth := limit
  functions :=
    [("main", .make "main" [] [.loop ⟨"int", "2"⟩ "", .callFunction "mid" {} "",
      .callFunction "leaf" {} "", .endLoop ""] ""),
    ("mid", .make "mid" [] [.callFunction "leaf" {} ""] ""),
    ("leaf", .make "leaf" [] [.callFunction "nowhere" {} "", .ret "int:1" ""] "")]

/-- The longest way from a function of `layered` to one that calls none. -/
def layer (name : String) : Nat := if name = "main" then 2 else if name = "mid" then 1 else 0

theorem ranked_layered (limit : Option Int) : (layered limit).Ranked layer := by
  have hall : ∀ b ∈ (layered none).functions, ∀ s ∈ b.2.body, s.form = .callFunction →
      ((layered none).findFunction? s.content).isSome = true → layer s.content < layer b.1 := by
    decide
  intro name f hf s hs hform g hg
  exact hall _ (Assoc.mem_of_lookup hf) s hs hform (Option.isSome_iff_exists.2 ⟨g, hg⟩)

/-- Without a limit the call of `main` has an outcome, and with the least limit that leaves room
for its `layer`, nothing is refused. -/
theorem ranked_calls_layered :
    (layered none).Ranked layer ∧
    (∃ n o, ∀ fuel, n ≤ fuel → (layered none).call fuel 3 "main" {} ⟨{}, #[]⟩ = some o) ∧
    (layered (some 5)).maxCallDepth = some (3 + layer "main") ∧
    ∃ o, (layered (some 5)).call 20 3 "main" {} ⟨{}, #[]⟩ = some o ∧ ¬ o.Refused := by
  have hroom : ∀ limit, (layered (some 5)).maxCallDepth = some limit →
      3 + (layer "main" : Int) ≤ limit := by
    rintro limit h
    cases h
    decide
  have hends : ((layered (some 5)).call 20 3 "main" {} ⟨{}, #[]⟩).isSome = true := by
    decide +kernel
  obtain ⟨o, ho⟩ := Option.isSome_iff_exists.1 hends
  refine ⟨ranked_layered none, (ranked_calls (ranked_layered none) 3 "main" {} ⟨{}, #[]⟩).1, rfl,
    o, ho, ?_⟩
  exact ((ranked_calls (ranked_layered (some 5)) 3 "main" {} ⟨{}, #[]⟩).2.2 hroom).2.2 20 o ho

end Engine

end BusScript
