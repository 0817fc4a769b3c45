import BusScript.Proofs.Emission
import BusScript.Proofs.Lockstep

/-!
# Watching a run does not change it

A host chooses how much of a run it sees and keeps: contexts and engines are
verbose or not, and a context keeps as many frames and messages as it likes,
besides those that it has kept before. `observation_inert` says that no such
choice has an influence on a call.

A run may have any trace behind it, and its engine may show anything: what it
adds to the trace does not depend on them, since runs that differ in nothing
else go in lockstep (`call_showing`). Contexts with the same variables
therefore take up the same world after a call, each in its own way.
-/

namespace BusScript

theorem Store.congruent_eq : Store.Congruent (· = ·) where
  refl s := rfl
  get?_eq h x := by rw [h]
  set h name v := by rw [h]
  erase h name := by rw [h]

/-- Calls that end `Alike` in equal stores, and begin with one trace, end in one outcome. -/
theorem Outcome.Alike.eq {since since' : World} {o o' : Outcome}
    (h : Outcome.Alike (· = ·) since since' o o') (hsince : since.trace = since'.trace) :
    o = o' := by
  obtain ⟨result, globals, trace⟩ := o
  obtain ⟨result', globals', trace'⟩ := o'
  obtain rfl : result = result' := h.result
  obtain rfl : globals = globals' := h.world.globals
  obtain rfl : trace = trace' := h.world.trace_eq hsince
  rfl

namespace Engine

/-- Calls with equal variables end `Alike`, whatever the traces behind them and whatever their
engines show. -/
theorem call_showing (E : Engine) (verbose : Bool) (fuel : Nat) (depth : Int) (name : String)
    (args globals : Store) (trace trace' : Array Event) :
    Option.Rel (Outcome.Alike (· = ·) ⟨globals, trace⟩ ⟨globals, trace'⟩)
      (E.call fuel depth name args ⟨globals, trace⟩)
      ((E.showing verbose).call fuel depth name args ⟨globals, trace'⟩) := by
  have hR := Store.congruent_eq
  have hw : World.Alike (· = ·) ⟨globals, trace⟩ ⟨globals, trace'⟩ ⟨globals, trace⟩
      ⟨globals, trace'⟩ := .start rfl
  exact call_lockstep hR (run_lockstep hR) rfl hw name

/-- In one world, an engine and the same engine `showing` something else execute the same. -/
theorem call_showing_eq (E : Engine) (verbose : Bool) (fuel : Nat) (depth : Int) (name : String)
    (args : Store) (w : World) :
    (E.showing verbose).call fuel depth name args w = E.call fuel depth name args w := by
  refine (eq_of_rel (E.call_showing verbose fuel depth name args w.globals w.trace w.trace) ?_).symm
  intro o o' ho
  exact ho.eq rfl

end Engine

namespace Session

variable {s s' : Session} {key key' : String} {c c' : Context}

/-- What `perform` does for a `call` in a context of the host. -/
theorem perform_call (hc : s.context? (some key) = some c) (fuel : Nat) (name : String)
    (args : Store) (depth : Int) :
    s.perform fuel (some key) (.call name args depth) =
      (s.engine.call fuel depth name args c.world).map fun o =>
        (⟨.ofOutcome o, o.world.frames, o.world.shown c.verbose s.engine.verbose⟩,
          ⟨s.engine, Assoc.put key (c.absorb o.world) s.contexts⟩) := by
  rw [perform_within hc, start_of_context? hc, act, Option.map_map]
  rfl

theorem performs_call (hc : s.context? (some key) = some c) {fuel : Nat} {name : String}
    {args : Store} {depth : Int} {o : Outcome}
    (ho : s.engine.call fuel depth name args c.world = some o) :
    s.Performs fuel (.call name args depth) (some key)
      ⟨.ofOutcome o, o.world.frames, o.world.shown c.verbose s.engine.verbose⟩
      ⟨s.engine, Assoc.put key (c.absorb o.world) s.contexts⟩ o.world := by
  refine .within hc ?_
  rw [start_of_context? hc, act, ho]
  rfl

/-- What two hosts see of one call: they get the same `reply` and the same frames, and one world
is left, from which both contexts take up the variables and the messages. -/
structure SeenAlike (s s' : Session) (key key' : String) (c c' : Context) (fuel : Nat)
    (command : Command) (x x' : Response × Session) : Prop where
  reply : x.1.reply = x'.1.reply
  sent : x.1.sent = x'.1.sent
  world : ∃ u, s.Performs fuel command (some key) x.1 x.2 u ∧
    s'.Performs fuel command (some key') x'.1 x'.2 u ∧ x.1.sent = u.frames ∧
    x.2.context? (some key) = some (c.absorb u) ∧ x'.2.context? (some key') = some (c'.absorb u)

/-- **Observation does not influence execution.** Let two contexts have the same variables,
whatever they show, however much they keep and whatever they have kept, and let their engines
differ at most in what they show (`showing`). Then a call ends in both of them or in none, with
the same value or failure, the same frames delivered, the same messages logged and the same
variables (`SeenAlike`). Moreover the calls end alike with any traces behind them. -/
theorem observation_inert {verbose : Bool} (hengine : s'.engine = s.engine.showing verbose)
    (hc : s.context? (some key) = some c) (hc' : s'.context? (some key') = some c')
    (hglobals : c'.globals = c.globals) (fuel : Nat) (name : String) (args : Store)
    (depth : Int) :
    Option.Rel (SeenAlike s s' key key' c c' fuel (.call name args depth))
      (s.perform fuel (some key) (.call name args depth))
      (s'.perform fuel (some key') (.call name args depth)) ∧
    ∀ trace trace',
      Option.Rel (Outcome.Alike (· = ·) ⟨c.globals, trace⟩ ⟨c'.globals, trace'⟩)
        (s.engine.call fuel depth name args ⟨c.globals, trace⟩)
        (s'.engine.call fuel depth name args ⟨c'.globals, trace'⟩) := by
  refine ⟨?_, ?_⟩
  · -- both hosts make the call in one and the same world
    have hworld : c'.world = c.world := by
      rw [Context.world, Context.world, hglobals]
    have hcall : s'.engine.call fuel depth name args c'.world =
        s.engine.call fuel depth name args c.world := by
      rw [hengine, hworld, Engine.call_showing_eq]
    rw [perform_call hc, perform_call hc']
    cases ho : s.engine.call fuel depth name args c.world with
    | none =>
        rw [hcall, ho]
        exact .none
    | some o =>
        rw [ho] at hcall
        rw [hcall]
        refine .some ⟨rfl, rfl, o.world, performs_call hc ho, performs_call hc' hcall, rfl, ?_, ?_⟩
        · rw [context?_put, if_pos rfl]
        · rw [context?_put, if_pos rfl]
  · intro trace trace'
    rw [hengine, hglobals]
    exact s.engine.call_showing verbose fuel depth name args c.globals trace trace'

/-- A context that shows nothing, with histories of length zero that keep nothing. -/
def blind : Context := ⟨false, .ofList [("g", ⟨"int", "1"⟩)], ⟨some 0, []⟩, ⟨some 0, []⟩⟩

/-- A context that is `verbose` and keeps everything, and has kept something already. -/
def keeping : Context where
  verbose := true
  globals := .ofList [("g", ⟨"int", "1"⟩)]
  frames := ⟨none, [⟨.number 9, [], "old"⟩]⟩
  messages := ⟨none, [(.info, "old")]⟩

/-- A session with a function `f` that sends a frame and returns a global variable. -/
def watching (verbose : Bool) (c : Context) : Session where
  engine :=
    { verbose
      frameSize := none
      instructions := [("mark", ⟨"mark", .number 3, [⟨"x", "u8", "", ""⟩], ""⟩)]
      functions :=
        [("f", .make "f" [] [.callInstruction "mark" (.ofList [("x", ⟨"int", "7"⟩)]) "",
          .ret "var:g" ""] "")] }
  contexts := [("main", c)]

theorem observation_inert_watching :
    ∃ x x', (watching false blind).perform 9 (some "main") (.call "f" {} 0) = some x ∧
      (watching true keeping).perform 9 (some "main") (.call "f" {} 0) = some x' ∧
      x.1.sent = [⟨.number 3, [7], "mark"⟩] ∧
      SeenAlike (watching false blind) (watching true keeping) "main" "main" blind keeping 9
        (.call "f" {} 0) x x' := by
  have hrun : ((watching false blind).perform 9 (some "main") (.call "f" {} 0)).map
      (fun x => x.1.sent) = some [⟨.number 3, [7], "mark"⟩] := by
    decide +kernel
  obtain ⟨x, hx, hsent⟩ := Option.map_eq_some_iff.1 hrun
  have hengine : (watching true keeping).engine = (watching false blind).engine.showing true := rfl
  have hc : (watching false blind).context? (some "main") = some blind := rfl
  have hc' : (watching true keeping).context? (some "main") = some keeping := rfl
  have hrel := (observation_inert hengine hc hc' rfl 9 "f" {} 0).1
  rw [hx] at hrel
  generalize hx' : (watching true keeping).perform 9 (some "main") (.call "f" {} 0) = x? at hrel
  cases hrel with
  | @some _ x' h => exact ⟨x, x', hx, rfl, hsent, h⟩

end Session

end BusScript
