import BusScript.Proofs.Action
import BusScript.Proofs.Forgetting

/-!
# Indices that are kept

A function is held by the host that makes it and, once registered, by the engine, and
both hold the same one: a statement that the host adds is executed by the next call. The
index of its loops is kept in a slot of the function until then. `Function` has a kept index
that is right by its type. Here a function is a `Definition` at an address, whose slot
may hold anything, and it takes an argument that it does not: one forgotten place at
which the slot has to be emptied would let a run jump to wrong positions.

* `Coherent.read` — who asks for an index gets the one of the statements;
* `Coherent.run` — a run that asks the slots has the outcome of the machine, and leaves the
  slots in order, also if it is given up halfway. The induction is on fuel, with the
  library handed from step to step;
* `Does.keeps` — so does everything else that can be done with definitions.

A run only fills slots (`Refreshes`), so the engine of a library is the same after it.
-/

namespace BusScript

open Relation (ReflTransGen)

/-- A function as its holders share it: what it consists of, and a slot for the index of its
loops. That the slot, `kept`, holds the right index is no part of the type. -/
structure Definition where
  name : String
  params : List Param
  body : List Statement
  note : String
  /-- The slot for the `LoopIndex`. -/
  kept : Option LoopIndex

namespace Definition

/-- What a definition consists of, without what is `kept` in the slot. -/
def plain (d : Definition) : Function := .make d.name d.params d.body d.note

/-- Add a statement at the end, and empty the slot `kept`. -/
def append (d : Definition) (s : Statement) : Definition :=
  { d with body := d.body ++ [s], kept := none }

/-- The index of the loops: the one that is `kept` in the slot, or else a new one by `ofBody`,
which is put there. With a fault in place of an index, the slot stays empty. -/
def read (d : Definition) : Except LoopFault LoopIndex × Definition :=
  match d.kept with
  | some index => (.ok index, d)
  | none =>
    match LoopIndex.ofBody d.name d.body with
    | .ok index => (.ok index, { d with kept := some index })
    | .error e => (.error e, d)

/-- The slot `kept` is empty, or holds the index of the statements that there are. -/
def Coherent (d : Definition) : Prop :=
  d.kept = none ∨ ∃ index, d.kept = some index ∧ LoopIndex.ofBody d.name d.body = .ok index

end Definition

/-- An index by which a run has jumped, and the `name` and `body` of the function as they were
then. -/
structure Use where
  name : String
  body : List Statement
  index : LoopIndex

/-- Definitions at their addresses, and under which `names` they are registered. -/
structure Library where
  /-- The instructions, and the settings of calls. Its own functions are not used. -/
  settings : Engine
  objects : Nat → Definition
  names : List (String × Nat)
  /-- The indices by which runs have jumped, the last one first. -/
  used : List Use

namespace Library

/-! ### What hosts do -/

/-- Add a statement to the definition at the address `r`. -/
def append (L : Library) (r : Nat) (s : Statement) : Library :=
  { L with objects := Function.update L.objects r ((L.objects r).append s) }

/-- Ask the definition at `r` for its index. To validate it is to ask, and to drop the answer.
-/
def read (L : Library) (r : Nat) : Except LoopFault LoopIndex × Library :=
  ((L.objects r).read.1, { L with objects := Function.update L.objects r (L.objects r).read.2 })

/-- Register the definition at `r`, if its loops are paired up, under its own name. -/
def register (L : Library) (r : Nat) : Except LoopFault Unit × Library :=
  match L.read r with
  | (.error e, L) => (.error e, L)
  | (.ok _, L) => (.ok (), { L with names := Assoc.put (L.objects r).name r L.names })

/-- The `Engine` of a library, with functions that keep no index. -/
def engine (L : Library) : Engine :=
  { L.settings with functions := Assoc.mapValues (fun r => (L.objects r).plain) L.names }

/-! ### Runs -/

/-- Ask a definition for its index in order to jump, and note the `Use`. -/
def jump (L : Library) (r : Nat) : Except LoopFault LoopIndex × Library :=
  match L.read r with
  | (.error e, L) => (.error e, L)
  | (.ok index, L) =>
    (.ok index, { L with used := ⟨(L.objects r).name, (L.objects r).body, index⟩ :: L.used })

/-- Go on with the index of the definition at `r`; without one, the call ends. -/
def withIndex (L : Library) (r : Nat) (w : World) (go : LoopIndex → Turn) :
    Option Turn × Library :=
  match L.jump r with
  | (.error e, L) => (some (.stop (.error (.structural e)) (w.log .fatal e.message)), L)
  | (.ok index, L) => (some (go index), L)

/-- Execute one statement of the definition at the address `r`. Only brackets of loops ask for
the index; `Engine.step` does the rest. -/
def step (call : String → Store → World → Library → Option Outcome × Library) (r : Nat)
    (a : Activation) (s : Statement) (w : World) (L : Library) : Option Turn × Library :=
  match s.form with
  | .callFunction =>
    match (a.memory w).actuals s with
    | .error e => (some (a.skip s.form e w), L)
    | .ok actuals =>
      let (o, L) := call s.content actuals w L
      (o.map fun o => L.settings.resume a o.result o.world, L)
  | .loop => L.withIndex r w (a.loop s w)
  | .endLoop => L.withIndex r w fun index => .next (a.goto (index.partner a.pos)) w
  | _ => (L.settings.step (fun _ _ _ => none) a s w, L)

/-- Enter the definition that is registered under `name`, and execute it by `body`. -/
def enter (depth : Int) (name : String) (args : Store) (w : World) (L : Library)
    (body : Nat → Activation → World → Library → Option Outcome × Library) :
    Option Outcome × Library :=
  match L.engine.entry depth name w with
  | .error o => (some o, L)
  | .ok f =>
    body ((L.names.lookup name).getD 0) (.start f args) (w.record (.enter name)).forgetReturn L

/-- Execute a call from its current state to its end, or until the `fuel` is used up. In either
case there is the library that it leaves. -/
def run : (fuel : Nat) → (depth : Int) → (r : Nat) → Activation → World → Library →
    Option Outcome × Library
  | 0, _, _, _, _, L => (none, L)
  | fuel + 1, depth, r, a, w, L =>
    -- the statements are those that the definition has now
    let a := { a with function := (L.objects r).plain }
    match a.current? with
    | none => (some (a.finish w), L)
    | some s =>
      let call := fun name args w L => enter (depth + 1) name args w L (run fuel (depth + 1))
      match step call r a s w L with
      | (none, L) => (none, L)
      | (some (.stop f w), L) => (some ⟨.error f, w⟩, L)
      | (some (.next a w), L) => run fuel depth r a w L

/-- Call the definition that is registered under `name`. -/
def call (fuel : Nat) (depth : Int) (name : String) (args : Store) (w : World) (L : Library) :
    Option Outcome × Library :=
  enter depth name args w L (run fuel depth)

/-- Execute the definition at `r`, registered or not. -/
def execute (fuel : Nat) (depth : Int) (r : Nat) (args : Store) (w : World) (L : Library) :
    Option Outcome × Library :=
  run fuel depth r (.start (L.objects r).plain args) w.forgetReturn L

/-- One thing that happens to a library. A `run` may be given up at any time, so that it leaves
a library without having an outcome. -/
inductive Does (L : Library) : Library → Prop
  | configure (settings : Engine) : Does L { L with settings }
  | append (r : Nat) (s : Statement) : Does L (L.append r s)
  | read (r : Nat) : Does L (L.read r).2
  | register (r : Nat) : Does L (L.register r).2
  | call (fuel : Nat) (depth : Int) (name : String) (args : Store) (w : World) :
      Does L (call fuel depth name args w L).2
  | execute (fuel : Nat) (depth : Int) (r : Nat) (args : Store) (w : World) :
      Does L (execute fuel depth r args w L).2

/-! ### What a library promises -/

/-- No slot holds anything but the index of the statements that there are, and no run has jumped
by anything else than `ofBody` gives. -/
structure Coherent (L : Library) : Prop where
  slots : ∀ r, (L.objects r).Coherent
  uses : ∀ u ∈ L.used, LoopIndex.ofBody u.name u.body = .ok u.index

/-- The library `L'` differs from `L` in slots and uses only. -/
structure Refreshes (L L' : Library) : Prop where
  settings : L'.settings = L.settings
  names : L'.names = L.names
  plain : ∀ r, (L'.objects r).plain = (L.objects r).plain

/-- Something is answered as without slots, by `answer`, and the library stays `Coherent`. -/
structure Answers {α : Type} (L : Library) (answer : α) (p : α × Library) : Prop where
  answer : p.1 = answer
  refreshes : L.Refreshes p.2
  coherent : p.2.Coherent

end Library

namespace Definition

variable {d : Definition}

theorem coherent_append (d : Definition) (s : Statement) : (d.append s).Coherent := .inl rfl

/-- To `read` the index is to build it anew. -/
theorem read_eq (h : d.Coherent) : d.read.1 = LoopIndex.ofBody d.name d.body := by
  unfold read
  rcases h with hnone | ⟨index, hkept, hindex⟩
  · rw [hnone]
    dsimp only
    split
    · rename_i hindex
      exact hindex.symm
    · rename_i he
      exact he.symm
  · rw [hkept, hindex]

theorem plain_read (d : Definition) : d.read.2.plain = d.plain := by
  unfold read
  split
  · rfl
  · split <;> rfl

theorem coherent_read (h : d.Coherent) : d.read.2.Coherent := by
  unfold read
  split
  · exact h
  · split
    · rename_i hindex
      exact .inr ⟨_, rfl, hindex⟩
    · exact h

end Definition

namespace Library

variable {L L' L'' : Library} {r : Nat}

namespace Refreshes

theorem refl (L : Library) : L.Refreshes L := ⟨rfl, rfl, fun _ => rfl⟩

theorem trans (h : L.Refreshes L') (h' : L'.Refreshes L'') : L.Refreshes L'' where
  settings := h'.settings.trans h.settings
  names := h'.names.trans h.names
  plain r := (h'.plain r).trans (h.plain r)

/-- What slots hold does not show in the `engine`. -/
theorem engine_eq (h : L.Refreshes L') : L'.engine = L.engine := by
  simp only [engine, h.settings, h.names, h.plain]

theorem name_eq (h : L.Refreshes L') (r : Nat) : (L'.objects r).name = (L.objects r).name :=
  congrArg Function.name (h.plain r)

theorem body_eq (h : L.Refreshes L') (r : Nat) : (L'.objects r).body = (L.objects r).body :=
  congrArg Function.body (h.plain r)

end Refreshes

theorem Answers.of_refreshes {α : Type} {answer : α} {p : α × Library} (h : L.Refreshes L')
    (hp : L'.Answers answer p) : L.Answers answer p :=
  ⟨hp.answer, h.trans hp.refreshes, hp.coherent⟩

theorem Coherent.self {α : Type} (h : L.Coherent) (answer : α) : L.Answers answer (answer, L) :=
  ⟨rfl, .refl L, h⟩

/-! ### Asking for an index -/

/-- A `Coherent` library answers with the index of the statements that there are. -/
theorem Coherent.read (h : L.Coherent) (r : Nat) :
    L.Answers (LoopIndex.ofBody (L.objects r).name (L.objects r).body) (L.read r) where
  answer := Definition.read_eq (h.slots r)
  refreshes := by
    refine ⟨rfl, rfl, fun x => ?_⟩
    show (Function.update L.objects r (L.objects r).read.2 x).plain = _
    by_cases hx : x = r
    · subst hx
      rw [Function.update_self, Definition.plain_read]
    · rw [Function.update_of_ne hx]
  coherent := by
    refine ⟨fun x => ?_, h.uses⟩
    show (Function.update L.objects r (L.objects r).read.2 x).Coherent
    by_cases hx : x = r
    · subst hx
      rw [Function.update_self]
      exact Definition.coherent_read (h.slots x)
    · rw [Function.update_of_ne hx]
      exact h.slots x

theorem Coherent.jump (h : L.Coherent) (r : Nat) :
    L.Answers (LoopIndex.ofBody (L.objects r).name (L.objects r).body) (L.jump r) := by
  have hread := h.read r
  unfold Library.jump
  rcases hp : L.read r with ⟨index?, L'⟩
  rw [hp] at hread
  have hindex : index? = _ := hread.answer
  cases index? with
  | error e => exact hread
  | ok index =>
      refine ⟨hread.answer, ⟨hread.refreshes.settings, hread.refreshes.names,
        hread.refreshes.plain⟩, hread.coherent.slots, ?_⟩
      refine List.forall_mem_cons.2 ⟨?_, hread.coherent.uses⟩
      show LoopIndex.ofBody (L'.objects r).name (L'.objects r).body = .ok index
      rw [hread.refreshes.name_eq, hread.refreshes.body_eq, ← hindex]

/-! ### Runs -/

/-- It goes on as `Activation.withIndex` does. -/
theorem Coherent.withIndex {a : Activation} {w : World} (h : L.Coherent)
    (ha : a.function = (L.objects r).plain) (go : LoopIndex → Turn) :
    L.Answers (some (a.withIndex w go)) (L.withIndex r w go) := by
  have hindex : a.function.loopIndex =
      LoopIndex.ofBody (L.objects r).name (L.objects r).body := by
    rw [ha, Function.loopIndex_eq_ofBody]
    rfl
  have hjump := h.jump r
  rw [← hindex] at hjump
  unfold Library.withIndex Activation.withIndex
  rcases hp : L.jump r with ⟨index?, L'⟩
  rw [hp] at hjump
  rw [← hjump.answer]
  cases index? with
  | error e => exact ⟨rfl, hjump.refreshes, hjump.coherent⟩
  | ok index => exact ⟨rfl, hjump.refreshes, hjump.coherent⟩

/-- A statement that neither calls a function nor is a bracket of a loop is executed without a
look at the functions, so the `settings` will do. -/
theorem step_settings {call : String → Store → World → Option Outcome} {a : Activation}
    {s : Statement} {w : World} (hcall : s.form ≠ .callFunction)
    (hplain : s.form.isBracket = false) :
    L.settings.step (fun _ _ _ => none) a s w = L.engine.step call a s w := by
  unfold Engine.step
  cases hform : s.form with
  | callFunction => exact absurd hform hcall
  | loop => simp [hform, Form.isBracket] at hplain
  | endLoop => simp [hform, Form.isBracket] at hplain
  | _ => rfl

/-- What `Library.step` does is what `Engine.step` does, if the functions that are called are
executed as without slots. -/
theorem Coherent.step {call : String → Store → World → Library → Option Outcome × Library}
    {call' : String → Store → World → Option Outcome} {a : Activation} {s : Statement} {w : World}
    (h : L.Coherent) (ha : a.function = (L.objects r).plain)
    (hcall : ∀ name args w, L.Answers (call' name args w) (call name args w L)) :
    L.Answers (L.engine.step call' a s w) (step call r a s w L) := by
  unfold Library.step
  cases hform : s.form with
  | callFunction =>
      simp only [Engine.step, hform]
      cases (a.memory w).actuals s with
      | error e => exact h.self _
      | ok actuals =>
          have hcalled := hcall s.content actuals w
          refine ⟨?_, hcalled.refreshes, hcalled.coherent⟩
          dsimp only
          rw [hcalled.answer, hcalled.refreshes.settings]
          rfl
  | loop =>
      simp only [Engine.step, hform]
      exact h.withIndex ha _
  | endLoop =>
      simp only [Engine.step, hform]
      exact h.withIndex ha _
  | _ =>
      refine ⟨?_, .refl L, h⟩
      exact step_settings (by simp [hform]) (by rw [hform]; rfl)

theorem findFunction?_engine (L : Library) (name : String) :
    L.engine.findFunction? name = (L.names.lookup name).map fun r => (L.objects r).plain :=
  Assoc.lookup_mapValues (fun r => (L.objects r).plain) L.names name

/-- A call enters the definition that is registered under its name in `names`. -/
theorem entry_eq_ok {depth : Int} {name : String} {w : World} {f : Function}
    (h : L.engine.entry depth name w = .ok f) :
    f = (L.objects ((L.names.lookup name).getD 0)).plain := by
  have hfind := (Engine.entry_eq_ok_iff.1 h).1
  rw [findFunction?_engine] at hfind
  obtain ⟨r, hr, rfl⟩ := Option.map_eq_some_iff.1 hfind
  rw [hr]
  rfl

theorem Coherent.enter {body : Nat → Activation → World → Library → Option Outcome × Library}
    {body' : Activation → World → Option Outcome} (h : L.Coherent)
    (hbody : ∀ r a w, a.function = (L.objects r).plain →
      L.Answers (body' a w) (body r a w L))
    (depth : Int) (name : String) (args : Store) (w : World) :
    L.Answers (L.engine.enter depth name args w body') (enter depth name args w L body) := by
  rw [Engine.enter_eq, Library.enter]
  cases hentry : L.engine.entry depth name w with
  | error o => exact h.self _
  | ok f => exact hbody _ _ _ (entry_eq_ok hentry)

/-- **A run with slots is a run without.** `Library.run` gives what `Engine.run` gives. It also
leaves all slots in order, wherever it is given up. -/
theorem Coherent.run (h : L.Coherent) (fuel : Nat) (depth : Int) {a : Activation} (w : World)
    (ha : a.function = (L.objects r).plain) :
    L.Answers (L.engine.run fuel depth a w) (run fuel depth r a w L) := by
  induction fuel generalizing L depth r a w with
  | zero => exact h.self none
  | succ fuel ih =>
      have hself : { a with function := (L.objects r).plain } = a := by rw [← ha]
      rw [Library.run]
      dsimp only
      rw [hself]
      cases hs : a.current? with
      | none =>
          rw [Engine.run_of_over hs]
          exact h.self _
      | some s =>
          have hcall : ∀ name args w, L.Answers (L.engine.call fuel (depth + 1) name args w)
              (Library.call fuel (depth + 1) name args w L) :=
            h.enter (fun r a w ha => ih h (depth + 1) w ha) (depth + 1)
          have hstep : L.Answers (L.engine.step (L.engine.call fuel (depth + 1)) a s w)
              (Library.step (Library.call fuel (depth + 1)) r a s w L) := h.step ha hcall
          rw [Engine.run_of_current? hs]
          show L.Answers _ (match Library.step (Library.call fuel (depth + 1)) r a s w L with
            | (none, L) => (none, L)
            | (some (.stop f w), L) => (some ⟨.error f, w⟩, L)
            | (some (.next a w), L) => Library.run fuel depth r a w L)
          rcases hp : Library.step (Library.call fuel (depth + 1)) r a s w L with ⟨t, L'⟩
          rw [hp] at hstep
          have ht : t = L.engine.step _ a s w := hstep.answer
          rw [← ht]
          match t with
          | none => exact ⟨rfl, hstep.refreshes, hstep.coherent⟩
          | some (.stop f w) => exact ⟨rfl, hstep.refreshes, hstep.coherent⟩
          | some (.next a' w') =>
              have hfunction : a'.function = (L'.objects r).plain := by
                rw [(Engine.action_of_step ht.symm).function_eq, ha]
                exact (hstep.refreshes.plain r).symm
              have hrest := ih hstep.coherent depth w' hfunction
              rw [hstep.refreshes.engine_eq] at hrest
              exact hrest.of_refreshes hstep.refreshes

theorem Coherent.call (h : L.Coherent) (fuel : Nat) (depth : Int) (name : String) (args : Store)
    (w : World) :
    L.Answers (L.engine.call fuel depth name args w) (call fuel depth name args w L) :=
  h.enter (fun _ _ w ha => h.run fuel depth w ha) depth name args w

theorem Coherent.execute (h : L.Coherent) (fuel : Nat) (depth : Int) (r : Nat) (args : Store)
    (w : World) :
    L.Answers (L.engine.execute fuel depth (L.objects r).plain args w)
      (execute fuel depth r args w L) :=
  h.run fuel depth w.forgetReturn rfl

/-! ### Registered definitions -/

/-- Definitions are registered under their own `name`. -/
structure Named (L : Library) : Prop where
  nodup : (Assoc.names L.names).Nodup
  own : ∀ b ∈ L.names, (L.objects b.2).name = b.1

theorem Named.of_refreshes (h : L.Named) (hL : L.Refreshes L') : L'.Named where
  nodup := by
    rw [hL.names]
    exact h.nodup
  own b hb := by
    rw [hL.names] at hb
    rw [hL.name_eq]
    exact h.own b hb

/-- A definition whose loops pair up is registered, and its index is kept. -/
theorem register_of_ok (h : L.Coherent) {index : LoopIndex}
    (hindex : LoopIndex.ofBody (L.objects r).name (L.objects r).body = .ok index) :
    ∃ L', L.Refreshes L' ∧ L'.Coherent ∧
      L.register r = (.ok (), { L' with names := Assoc.put (L.objects r).name r L.names }) := by
  have hread := h.read r
  rcases hp : L.read r with ⟨index?, L'⟩
  rw [hp, hindex] at hread
  cases hread.answer
  have hL : L.Refreshes L' := hread.refreshes
  refine ⟨L', hL, hread.coherent, ?_⟩
  simp only [register, hp, hL.name_eq, hL.names]

theorem register_of_error (h : L.Coherent) {e : LoopFault}
    (he : LoopIndex.ofBody (L.objects r).name (L.objects r).body = .error e) :
    ∃ L', L.Refreshes L' ∧ L'.Coherent ∧ L.register r = (.error e, L') := by
  have hread := h.read r
  rcases hp : L.read r with ⟨index?, L'⟩
  rw [hp, he] at hread
  cases hread.answer
  exact ⟨L', hread.refreshes, hread.coherent, by simp only [register, hp]⟩

theorem register_keeps (h : L.Coherent) (hn : L.Named) (r : Nat) :
    (L.register r).2.Coherent ∧ (L.register r).2.Named := by
  cases hindex : LoopIndex.ofBody (L.objects r).name (L.objects r).body with
  | error e =>
      obtain ⟨L', hL, hcoherent, heq⟩ := register_of_error h hindex
      rw [heq]
      exact ⟨hcoherent, hn.of_refreshes hL⟩
  | ok index =>
      obtain ⟨L', hL, hcoherent, heq⟩ := register_of_ok h hindex
      rw [heq]
      refine ⟨⟨hcoherent.slots, hcoherent.uses⟩, Assoc.nodup_put hn.nodup, fun b hb => ?_⟩
      show (L'.objects b.2).name = b.1
      rw [hL.name_eq]
      rcases Assoc.mem_of_mem_put hb with rfl | hb
      · rfl
      · exact hn.own b hb

/-! ### Added statements -/

theorem objects_append_self (L : Library) (r : Nat) (s : Statement) :
    (L.append r s).objects r = (L.objects r).append s :=
  Function.update_self ..

theorem objects_append_of_ne {x : Nat} (hx : x ≠ r) (s : Statement) :
    (L.append r s).objects x = L.objects x :=
  Function.update_of_ne hx ..

/-- A statement that is added to a definition is added to the functions of the `engine` that are
found there. -/
theorem engine_append (L : Library) (r : Nat) (s : Statement) :
    (L.append r s).engine = { L.engine with
      functions := Assoc.mapValues (fun x => ((L.append r s).objects x).plain) L.names } :=
  rfl

theorem append_keeps (h : L.Coherent) (hn : L.Named) (r : Nat) (s : Statement) :
    (L.append r s).Coherent ∧ (L.append r s).Named := by
  refine ⟨⟨fun x => ?_, h.uses⟩, hn.nodup, fun b hb => ?_⟩
  · by_cases hx : x = r
    · subst hx
      rw [objects_append_self]
      exact Definition.coherent_append _ s
    · rw [objects_append_of_ne hx]
      exact h.slots x
  · by_cases hx : b.2 = r
    · rw [hx, objects_append_self, ← hx]
      exact hn.own b hb
    · rw [objects_append_of_ne hx]
      exact hn.own b hb

/-! ### Whatever happens to a library -/

/-- A library in which nothing has happened yet: nothing is `kept`, registered or `used`. -/
structure Fresh (L : Library) : Prop where
  kept : ∀ r, (L.objects r).kept = none
  names : L.names = []
  used : L.used = []

theorem Answers.keeps {α : Type} {answer : α} {p : α × Library} (h : L.Answers answer p)
    (hn : L.Named) : p.2.Coherent ∧ p.2.Named :=
  ⟨h.coherent, hn.of_refreshes h.refreshes⟩

/-- What is done to a library (`Does`) keeps it `Coherent` and `Named`. -/
theorem Does.keeps (h : L.Does L') (hL : L.Coherent) (hn : L.Named) :
    L'.Coherent ∧ L'.Named := by
  cases h with
  | configure settings => exact ⟨⟨hL.slots, hL.uses⟩, hn.nodup, hn.own⟩
  | append r s => exact append_keeps hL hn r s
  | read r => exact (hL.read r).keeps hn
  | register r => exact register_keeps hL hn r
  | call fuel depth name args w => exact (hL.call fuel depth name args w).keeps hn
  | execute fuel depth r args w => exact (hL.execute fuel depth r args w).keeps hn

theorem keeps_of_path (hfresh : L.Fresh) (h : ReflTransGen Does L L') :
    L'.Coherent ∧ L'.Named := by
  induction h with
  | refl =>
      refine ⟨⟨fun r => .inl (hfresh.kept r), ?_⟩, ?_, ?_⟩
      · simp [hfresh.used]
      · simp [hfresh.names]
      · simp [hfresh.names]
  | tail _ hdoes ih => exact hdoes.keeps ih.1 ih.2

end Library

/-! ### Engines with the same functions -/

/-- An engine has the functions that are registered in a library. Its own functions may keep an
index or not (`forget`). -/
def Engine.Mirrors (E : Engine) (L : Library) : Prop := E.forget = L.engine

theorem Function.validate_cases (f : Function) :
    (∃ g index, f.validate = .ok g ∧ f.loopIndex = .ok index ∧ g.forget = f.forget) ∨
    ∃ e, f.validate = .error e ∧ f.loopIndex = .error e := by
  unfold validate
  split
  · rename_i e he
    exact .inr ⟨e, rfl, he⟩
  · rename_i index hindex
    exact .inl ⟨_, index, rfl, hindex, rfl⟩

/-- Other values under `name`, where it is found. -/
theorem Assoc.mapValues_update {β : Type} (g g' : Nat → β) {l : List (String × Nat)}
    {name : String} {r : Nat} (hl : (names l).Nodup) (hname : l.lookup name = some r)
    (hg : ∀ b ∈ l, b.1 ≠ name → g' b.2 = g b.2) :
    mapValues g' l = put name (g' r) (mapValues g l) := by
  induction l with
  | nil => cases hname
  | cons b l ih =>
      obtain ⟨n, x⟩ := b
      rw [names_cons, List.nodup_cons] at hl
      rw [List.forall_mem_cons] at hg
      show (n, g' x) :: mapValues g' l = if n = name then _ else _
      rw [lookup_cons] at hname
      by_cases hn : n = name
      · subst hn
        rw [if_pos rfl] at hname
        cases hname
        rw [if_pos rfl]
        refine congrArg ((n, g' r) :: ·) (List.map_congr_left fun b hb => ?_)
        have hne : b.1 ≠ n := by
          intro heq
          have hmem : b.1 ∈ names l := List.mem_map_of_mem hb
          exact hl.1 (heq ▸ hmem)
        rw [hg.2 b hb hne]
      · rw [if_neg (Ne.symm hn)] at hname
        rw [if_neg hn, hg.1 hn, ih hl.2 hname hg.2]
        rfl

namespace Library

variable {E : Engine} {L L' : Library} {r : Nat} {f : Function}

theorem Refreshes.mirrors (h : L.Refreshes L') (hE : E.Mirrors L) : E.Mirrors L' := by
  rw [Engine.Mirrors, h.engine_eq]
  exact hE

theorem loopIndex_of_forget (hf : f.forget = (L.objects r).plain) :
    f.loopIndex = LoopIndex.ofBody (L.objects r).name (L.objects r).body := by
  rw [← f.loopIndex_forget, hf, Function.loopIndex_eq_ofBody]
  rfl

theorem forget_put (E : Engine) (name : String) (f : Function) :
    ({ E with functions := Assoc.put name f E.functions } : Engine).forget =
      { E.forget with functions := Assoc.put name f.forget E.forget.functions } := by
  simp only [Engine.forget, Assoc.mapValues_put]

theorem engine_put (h : L.Refreshes L') (name : String) (r : Nat) :
    ({ L' with names := Assoc.put name r L.names } : Library).engine =
      { L.engine with
        functions := Assoc.put name (L'.objects r).plain L.engine.functions } := by
  simp only [engine, Assoc.mapValues_put, h.settings, h.plain]

/-- What `addFunction` registers in an engine, `register` registers in the library. -/
theorem mirrors_register (h : L.Coherent) (hE : E.Mirrors L)
    (hf : f.forget = (L.objects r).plain) :
    (∀ E', E.addFunction f = .ok E' → (L.register r).1 = .ok () ∧ E'.Mirrors (L.register r).2) ∧
    ∀ e, E.addFunction f = .error e → (L.register r).1 = .error e ∧ E.Mirrors (L.register r).2 := by
  have hindex := loopIndex_of_forget hf
  rcases f.validate_cases with ⟨g, index, hvalid, hloop, hg⟩ | ⟨e, hvalid, hloop⟩
  · rw [hindex] at hloop
    obtain ⟨L', hL, -, heq⟩ := register_of_ok h hloop
    have hadd : E.addFunction f = .ok { E with functions := Assoc.put g.name g E.functions } := by
      rw [Engine.addFunction, hvalid]
    rw [hadd, heq]
    refine ⟨fun E' hE' => ⟨rfl, ?_⟩, nofun⟩
    cases hE'
    have hplain := hg.trans hf
    have hname : g.name = (L.objects r).name := congrArg Function.name hplain
    rw [Engine.Mirrors, forget_put, hE, hplain, hname, ← hL.plain]
    exact (engine_put hL _ r).symm
  · rw [hindex] at hloop
    obtain ⟨L', hL, -, heq⟩ := register_of_error h hloop
    have hadd : E.addFunction f = .error e := by rw [Engine.addFunction, hvalid]
    rw [hadd, heq]
    refine ⟨nofun, fun e' he' => ?_⟩
    cases he'
    exact ⟨rfl, hL.mirrors hE⟩

/-- What `appendStatement` adds to a function of an engine, `append` adds in the library. -/
theorem mirrors_append (h : L.Named) (hE : E.Mirrors L) {name : String}
    (hname : L.names.lookup name = some r) (s : Statement) :
    (E.appendStatement name s).Mirrors (L.append r s) := by
  have hfind : (E.findFunction? name).map Function.forget = some (L.objects r).plain := by
    rw [← Engine.findFunction?_forget, hE, findFunction?_engine, hname, Option.map_some]
  obtain ⟨f, hf, hplain⟩ := Option.map_eq_some_iff.1 hfind
  have hadded : (f.append s).forget = ((L.append r s).objects r).plain := by
    rw [objects_append_self]
    exact congrArg (Function.append · s) hplain
  -- the other names belong to other definitions
  have hothers : ∀ b ∈ L.names, b.1 ≠ name →
      ((L.append r s).objects b.2).plain = (L.objects b.2).plain := by
    intro b hb hne
    rw [objects_append_of_ne]
    intro heq
    have hown := h.own _ (Assoc.mem_of_lookup hname)
    rw [← heq, h.own b hb] at hown
    exact hne hown
  rw [Engine.Mirrors, Engine.appendStatement_of_find hf, forget_put, hE, hadded]
  have hupdate := Assoc.mapValues_update (fun x => (L.objects x).plain)
    (fun x => ((L.append r s).objects x).plain) h.nodup hname hothers
  rw [engine_append, hupdate]
  rfl

theorem mirrors_append_of_not_mem (hE : E.Mirrors L) (hr : ∀ b ∈ L.names, b.2 ≠ r)
    (s : Statement) : E.Mirrors (L.append r s) := by
  rw [Engine.Mirrors, hE]
  have hfunctions : Assoc.mapValues (fun x => ((L.append r s).objects x).plain) L.names =
      Assoc.mapValues (fun x => (L.objects x).plain) L.names := by
    refine List.map_congr_left fun b hb => ?_
    dsimp only
    rw [objects_append_of_ne (hr b hb)]
  rw [engine_append, hfunctions]
  rfl

/-- A library answers as an engine that `Mirrors` it, and is mirrored still. -/
structure AnswersAs (L : Library) (E : Engine) : Prop where
  /-- A definition is asked for its index. -/
  reads : ∀ (f : Function) r, f.forget = (L.objects r).plain →
    (L.read r).1 = f.loopIndex ∧ E.Mirrors (L.read r).2
  /-- A definition is registered by `register`. -/
  registers : ∀ (f : Function) r, f.forget = (L.objects r).plain →
    ∀ E', E.addFunction f = .ok E' → (L.register r).1 = .ok () ∧ E'.Mirrors (L.register r).2
  /-- A definition is refused by `register`. -/
  refuses : ∀ (f : Function) r, f.forget = (L.objects r).plain →
    ∀ e, E.addFunction f = .error e → (L.register r).1 = .error e ∧ E.Mirrors (L.register r).2
  /-- A statement is added to the function that is registered under a name. -/
  append : ∀ name r, L.names.lookup name = some r →
    ∀ s, (E.appendStatement name s).Mirrors (L.append r s)
  /-- A statement is added to a definition that is not registered. -/
  appendHeld : ∀ r, (∀ b ∈ L.names, b.2 ≠ r) → ∀ s, E.Mirrors (L.append r s)
  /-- The function that is registered under `name` is called. -/
  call : ∀ fuel depth name args w,
    (call fuel depth name args w L).1 = E.call fuel depth name args w ∧
      E.Mirrors (Library.call fuel depth name args w L).2
  /-- A definition is executed that need not be registered. -/
  execute : ∀ (f : Function) r, f.forget = (L.objects r).plain → ∀ fuel depth args w,
    (execute fuel depth r args w L).1 = E.execute fuel depth f args w ∧
      E.Mirrors (Library.execute fuel depth r args w L).2

/-- What a library keeps is in order, and makes no difference to an engine that `Mirrors` it. -/
structure Faithful (L : Library) : Prop where
  /-- A slot is empty, or holds the index of the statements that there are (`Coherent`). -/
  slots : ∀ r, (L.objects r).Coherent
  /-- An index that is asked for is the one that `ofBody` builds from scratch, and so is a
  fault. -/
  read : ∀ r, (L.read r).1 = LoopIndex.ofBody (L.objects r).name (L.objects r).body
  /-- Runs have jumped by the index of the statements that there were. -/
  uses : ∀ u ∈ L.used, LoopIndex.ofBody u.name u.body = .ok u.index
  /-- Engines build their indices from the statements. -/
  answers : ∀ E : Engine, E.Mirrors L → L.AnswersAs E

theorem Coherent.answersAs (h : L.Coherent) (hnamed : L.Named) (hE : E.Mirrors L) :
    L.AnswersAs E where
  reads f r hf := by
    have hread := h.read r
    exact ⟨hread.answer.trans (loopIndex_of_forget hf).symm, hread.refreshes.mirrors hE⟩
  registers f r hf := (mirrors_register h hE hf).1
  refuses f r hf := (mirrors_register h hE hf).2
  append name r hname s := mirrors_append hnamed hE hname s
  appendHeld r hr s := mirrors_append_of_not_mem hE hr s
  call fuel depth name args w := by
    have hcall := h.call fuel depth name args w
    refine ⟨?_, hcall.refreshes.mirrors hE⟩
    rw [hcall.answer, ← hE, Engine.call_forget]
  execute f r hf fuel depth args w := by
    have hexecute := h.execute fuel depth r args w
    refine ⟨?_, hexecute.refreshes.mirrors hE⟩
    rw [hexecute.answer, ← hE, ← hf]
    exact E.run_forget fuel depth (.start f args) w.forgetReturn

/-- **Kept indices are never out of date.** Whatever is done with shared definitions (`Does`),
in any order: statements are added, indices asked for, definitions registered, called and
executed, with or without a fault, also if a run is given up. No slot ever holds anything but
the index of the statements that there are, so that asking for an index is building it, and no
run is any different from one without slots (`Faithful`). -/
theorem index_coherent {L₀ L : Library} (hfresh : L₀.Fresh) (h : ReflTransGen Does L₀ L) :
    L.Faithful := by
  obtain ⟨hcoherent, hnamed⟩ := keeps_of_path hfresh h
  exact ⟨hcoherent.slots, fun r => (hcoherent.read r).answer, hcoherent.uses,
    fun _ hE => hcoherent.answersAs hnamed hE⟩

/-- A `Fresh` library of functions with a loop. -/
def looped : Library where
  settings := {}
  objects _ := ⟨"f", [], [.loop ⟨"int", "2"⟩ "", .endLoop ""], "", none⟩
  names := []
  used := []

/-- One of the functions of `looped` is registered and called. -/
def loopedOnce : Library := (call 9 0 "f" {} ⟨{}, #[]⟩ (looped.register 0).2).2

/-- The call is that of `Engine.call`. The index is kept until the function is changed; then a
fault is found instead. -/
theorem index_coherent_loopedOnce :
    (∃ E, ({} : Engine).addFunction (looped.objects 0).plain = .ok E ∧
      (call 9 0 "f" {} ⟨{}, #[]⟩ (looped.register 0).2).1 = E.call 9 0 "f" {} ⟨{}, #[]⟩) ∧
    (loopedOnce.objects 0).kept = some ⟨[(0, 1)]⟩ ∧
    loopedOnce.used.map (·.index) = List.replicate 5 ⟨[(0, 1)]⟩ ∧
    ((loopedOnce.append 0 (.endLoop "")).read 0).1 = .error ⟨.notOpened, "f", 2⟩ := by
  have hfresh : looped.Fresh := ⟨fun _ => rfl, rfl, rfl⟩
  have hregister : ReflTransGen Does looped (looped.register 0).2 := .single (.register 0)
  have hpath : ReflTransGen Does looped (loopedOnce.append 0 (.endLoop "")) :=
    (hregister.tail (.call 9 0 "f" {} ⟨{}, #[]⟩)).tail (.append 0 (.endLoop ""))
  have hadd : ∃ E, ({} : Engine).addFunction (looped.objects 0).plain = .ok E := ⟨_, rfl⟩
  refine ⟨?_, by decide +kernel, by decide +kernel, ?_⟩
  · obtain ⟨E, hE⟩ := hadd
    have hmirrors := ((index_coherent hfresh .refl).answers {} rfl).registers _ 0 rfl E hE
    have hanswers := (index_coherent hfresh hregister).answers E hmirrors.2
    exact ⟨E, hE, (hanswers.call 9 0 "f" {} ⟨{}, #[]⟩).1⟩
  · rw [(index_coherent hfresh hpath).read]
    decide +kernel

end Library

end BusScript
