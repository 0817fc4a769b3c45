import BusScript.Proofs.Lockstep
import Mathlib.Data.List.Nodup

/-!
# The order of bindings

A store remembers in which order its names were bound, and its text form shows
it. A run does not: two stores `Agree` if they bind the same names to the same
values, which is to say that one is the other in another order
(`agrees_iff_perm`), and nothing that a run does or leaves tells them apart but
the order itself: `order_unobservable`.

Agreement is a congruence, so the runs go in lockstep. The arguments of nested
calls and of instructions are bound in the order of the statement, which is the
same in both runs.
-/

namespace BusScript

namespace Store

/-- The stores `s` and `t` bind the same names to the same values. -/
def Agrees (s t : Store) : Prop := ∀ x, s.get? x = t.get? x

theorem mem_bindings_iff {s : Store} {x : String} {v : Tagged} :
    (x, v) ∈ s.bindings ↔ s.get? x = some v :=
  ⟨Assoc.lookup_of_mem s.nodup, Assoc.mem_of_lookup⟩

theorem nodup_bindings (s : Store) : s.bindings.Nodup := List.Nodup.of_map _ s.nodup

/-- Stores agree (`Agrees`) exactly if the `bindings` of one are those of the other in another
order. -/
theorem agrees_iff_perm {s t : Store} : s.Agrees t ↔ s.bindings.Perm t.bindings := by
  constructor
  · intro h
    rw [List.perm_ext_iff_of_nodup s.nodup_bindings t.nodup_bindings]
    rintro ⟨x, v⟩
    rw [mem_bindings_iff, mem_bindings_iff, h x]
  · intro h x
    refine Option.ext fun v => ?_
    rw [← mem_bindings_iff, ← mem_bindings_iff]
    exact h.mem_iff

/-- Whatever execution does with stores, it does alike with stores that agree (`Congruent`). -/
theorem congruent_agrees : Congruent Agrees where
  refl s x := rfl
  get?_eq h := h
  set h name v := by
    intro x
    rw [get?_set, get?_set, h x]
  erase h name := by
    intro x
    rw [get?_erase, get?_erase, h x]

end Store

namespace Engine

/-- **The order of bindings is not observable.** From global variables that agree and with
arguments that agree (`Agrees`), a call ends in both cases or in none, with the same value or
failure, the same frames sent and the same messages logged, and leaves global variables that
agree again. Arguments that agree are encoded by `encode` to the same frame, or fail in the same
way. -/
theorem order_unobservable (E : Engine) {args args' globals globals' : Store}
    (hargs : args.Agrees args') (hglobals : globals.Agrees globals') :
    (∀ fuel depth name trace,
      Option.Rel (fun o o' : Outcome => o.result = o'.result ∧
          o.world.frames = o'.world.frames ∧ o.world.messages = o'.world.messages ∧
          o.world.globals.Agrees o'.world.globals)
        (E.call fuel depth name args ⟨globals, trace⟩)
        (E.call fuel depth name args' ⟨globals', trace⟩)) ∧
    ∀ i frameSize, Instruction.encode i frameSize args = i.encode frameSize args' := by
  refine ⟨?_, ?_⟩
  · intro fuel depth name trace
    have hR := Store.congruent_agrees
    have hw : World.Alike Store.Agrees ⟨globals, trace⟩ ⟨globals', trace⟩ ⟨globals, trace⟩
        ⟨globals', trace⟩ := .start hglobals
    have hcall : Option.Rel (Outcome.Alike Store.Agrees ⟨globals, trace⟩ ⟨globals', trace⟩)
        (E.call fuel depth name args ⟨globals, trace⟩)
        ((E.showing E.verbose).call fuel depth name args' ⟨globals', trace⟩) :=
      call_lockstep hR (run_lockstep hR) hargs hw name
    refine rel_mono hcall fun o o' ho => ?_
    have htrace := ho.world.trace_eq rfl
    exact ⟨ho.result, by rw [World.frames, World.frames, htrace],
      by rw [World.messages, World.messages, htrace], ho.world.globals⟩
  · intro i frameSize
    exact i.encode_congr hargs frameSize

/-- A function `f` that adds two global variables and sends one of its arguments. -/
def tallying : Engine where
  frameSize := none
  instructions := [("mark", ⟨"mark", .number 3, [⟨"x", "u8", "", ""⟩], ""⟩)]
  functions :=
    [("f", .make "f" [] [.setVar "z" ":=" ⟨"var", "x"⟩ "+" ⟨"var", "y"⟩ "",
      .callInstruction "mark" (.ofList [("x", ⟨"var", "a"⟩)]) "", .ret "var:z" ""] "")]

theorem order_unobservable_tallying :
    let globals := Store.ofList [("x", ⟨"int", "1"⟩), ("y", ⟨"int", "2"⟩)]
    let globals' := Store.ofList [("y", ⟨"int", "2"⟩), ("x", ⟨"int", "1"⟩)]
    let args := Store.ofList [("a", ⟨"int", "7"⟩), ("b", ⟨"int", "8"⟩)]
    let args' := Store.ofList [("b", ⟨"int", "8"⟩), ("a", ⟨"int", "7"⟩)]
    globals ≠ globals' ∧ globals.Agrees globals' ∧ args ≠ args' ∧ args.Agrees args' ∧
    ∃ o o', tallying.call 9 0 "f" args ⟨globals, #[]⟩ = some o ∧
      tallying.call 9 0 "f" args' ⟨globals', #[]⟩ = some o' ∧
      o.result = .ok (some ⟨"int", "3"⟩) ∧ o.world.frames = [⟨.number 3, [7], "mark"⟩] ∧
      o.result = o'.result ∧ o.world.frames = o'.world.frames ∧
      o.world.messages = o'.world.messages ∧ o.world.globals.Agrees o'.world.globals := by
  intro globals globals' args args'
  have hglobals : globals.Agrees globals' := Store.agrees_iff_perm.2 (by decide)
  have hargs : args.Agrees args' := Store.agrees_iff_perm.2 (by decide)
  have hrun : (tallying.call 9 0 "f" args ⟨globals, #[]⟩).map
      (fun o => (o.result, o.world.frames)) =
        some (.ok (some ⟨"int", "3"⟩), [⟨.number 3, [7], "mark"⟩]) := by
    decide +kernel
  obtain ⟨o, ho, heq⟩ := Option.map_eq_some_iff.1 hrun
  obtain ⟨hresult, hframes⟩ := Prod.mk.inj heq
  have hrel := (order_unobservable tallying hargs hglobals).1 9 0 "f" #[]
  rw [ho] at hrel
  generalize ho' : tallying.call 9 0 "f" args' ⟨globals', #[]⟩ = o? at hrel
  cases hrel with
  | @some _ o' h =>
      exact ⟨by decide, hglobals, by decide, hargs, o, o', ho, rfl, hresult, hframes, h⟩

end Engine

end BusScript
