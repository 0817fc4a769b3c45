import BusScript.Proofs.Counters
import BusScript.Proofs.Decimal

/-!
# Loops that count in variables

A call can keep the numbers of a loop in a store of variables: a copy of its arguments,
with the number of the pass and the count bound on top of them, as texts. A loop then
looks up its store and the two variables in it, and reads them as numbers; each of these
can fail. In a function whose loops pair up, none does: `loops_counted`.

* `Scratch.loop` is what an opening statement does on stores, with all that can fail;
* `Scratch.loop_eq` — where a counter is in range, it does what the loop with a counter
  does;
* `keeps_scratch`, `Keeps.scratch_eq` — along a call there are stores, and they are the
  counters.
-/

namespace BusScript

open Relation (ReflTransGen)

/-- The variable `$index`, in which a loop counts the passes that it has started. -/
def indexName : String := "$index"

/-- The number that the variable `name` holds in a store. There is none if the variable is not
bound, or holds something else. -/
def Store.number? (s : Store) (name : String) : Option Int :=
  (s.get? name).bind fun v => (Numeral.parse v.payload).toOption

/-- The store of a loop: the `args` of the call, with the numbers of the loop bound on top of
them. There is none if these are too long to be written. -/
def Counter.store? (k : Counter) (args : Store) : Option Store :=
  (Tagged.ofInt? k.started).bind fun started =>
    (Tagged.ofInt? k.count).map fun count =>
      (args.set indexName started).set Statement.countArg count

/-- The stores of the loops that are being run, by where the loops open. -/
abbrev Scratch : Type := Nat → Option Store

/-- What a `loop` leads to: other stores and another position, or the end of the call. -/
inductive ScratchTurn where
  | next (scratch : Scratch) (pos : Nat)
  | stop

namespace Scratch

/-- Start another pass of the loop at `pos`, or end the loop, by the numbers in its store. There
is no answer if something that is looked up is not there. -/
def pass (scratch : Scratch) (index : LoopIndex) (pos : Nat) : Option ScratchTurn := do
  let store ← scratch pos
  let started ← store.number? indexName
  let count ← store.number? Statement.countArg
  if started < count then
    let next ← Tagged.ofInt? (started + 1)
    return .next (Function.update scratch pos (some (store.set indexName next))) (pos + 1)
  else
    let stop ← index.partner? pos
    return .next (Function.update scratch pos none) (stop + 1)

/-- Enter the loop at `pos` with `count`, or go on with it by `pass`. -/
def loop (scratch : Scratch) (args : Store) (index : LoopIndex) (pos : Nat)
    (count : Except Activation.CountError Int) : Option ScratchTurn :=
  match scratch pos with
  | some _ => scratch.pass index pos
  | none =>
    match count with
    | .error _ => (index.partner? pos).map fun stop => .next scratch (stop + 1)
    | .ok n =>
      match Counter.store? ⟨0, n⟩ args with
      | none => some .stop
      | some store => pass (Function.update scratch pos (some store)) index pos

end Scratch

/-- The counters of a call as stores, by `Counter.store?`. -/
def Activation.scratch (a : Activation) : Scratch :=
  fun p => (a.loops.lookup p).bind (·.store? a.args)

/-- A `Turn` as the stores and the position that it leads to. -/
def Turn.scratch : Turn → ScratchTurn
  | .next a _ => .next a.scratch a.pos
  | .stop _ _ => .stop

/-! ### Numbers in stores -/

theorem Numeral.writable_of_le {m n : Int} (hm : 0 ≤ m) (hmn : m ≤ n)
    (h : writable n = true) : writable m = true := by
  have hle : m.natAbs ≤ n.natAbs := by omega
  rw [writable, decide_eq_true_iff] at h ⊢
  exact Nat.lt_of_le_of_lt hle h

theorem Tagged.ofInt?_of_writable {n : Int} (h : Numeral.writable n = true) :
    ofInt? n = some ⟨Kind.int.tag, Numeral.decimal n⟩ := by
  rw [ofInt?, Numeral.write?, if_pos h]
  rfl

namespace Store

variable {s : Store} {name x : String} {n : Int}

/-- A number that is `writable` is read back from the variable in which it was put. -/
theorem number?_set_ofInt (h : Numeral.writable n = true) (s : Store) (name : String) :
    (s.set name ⟨Kind.int.tag, Numeral.decimal n⟩).number? name = some n := by
  have hempty : Tagged.isEmpty ⟨Kind.int.tag, Numeral.decimal n⟩ = false := rfl
  simp [number?, get?_set, hempty, Numeral.parse_decimal h, Except.toOption]

theorem number?_set_of_ne (hx : x ≠ name) (s : Store) (v : Tagged) :
    (s.set name v).number? x = s.number? x := by
  simp [number?, get?_set, hx]

end Store

namespace Counter

variable {k : Counter} {args : Store}

/-- Both numbers of a loop are `writable`. -/
structure Writable (k : Counter) : Prop where
  started : Numeral.writable k.started = true
  count : Numeral.writable k.count = true

theorem InRange.toWritable (h : k.InRange) : k.Writable where
  started := by
    have hpos := h.pos
    exact Numeral.writable_of_le (by omega) h.le h.writable
  count := h.writable

theorem store?_of_writable (h : k.Writable) (args : Store) :
    k.store? args = some ((args.set indexName ⟨Kind.int.tag, Numeral.decimal k.started⟩).set
      Statement.countArg ⟨Kind.int.tag, Numeral.decimal k.count⟩) := by
  rw [store?, Tagged.ofInt?_of_writable h.started, Tagged.ofInt?_of_writable h.count]
  rfl

/-- What `store` holds of the numbers of its loop, and how the next pass is written into it. -/
structure Holds (k : Counter) (args store : Store) : Prop where
  index : store.number? indexName = some k.started
  count : store.number? Statement.countArg = some k.count
  next : ∀ n : Int, Numeral.writable n = true →
    store? ⟨n, k.count⟩ args = some (store.set indexName ⟨Kind.int.tag, Numeral.decimal n⟩)

/-- A counter that is `Writable` has a store, which `Holds` its numbers. -/
theorem exists_store? (h : k.Writable) (args : Store) :
    ∃ store, k.store? args = some store ∧ k.Holds args store := by
  refine ⟨_, store?_of_writable h args, ?_, ?_, ?_⟩
  · rw [Store.number?_set_of_ne (by decide), Store.number?_set_ofInt h.started]
  · rw [Store.number?_set_ofInt h.count]
  · intro n hn
    have hk : Writable ⟨n, k.count⟩ := ⟨hn, h.count⟩
    rw [store?_of_writable hk]
    refine congrArg some (Store.ext ?_)
    have hempty : ∀ m, Tagged.isEmpty ⟨Kind.int.tag, Numeral.decimal m⟩ = false := fun _ => rfl
    simp only [Store.bindings_set (hempty _)]
    -- the place of the index is settled by its first binding
    have hmem : ∀ v, indexName ∈ Assoc.names (Assoc.put indexName v args.bindings) := by
      intro v
      rw [Assoc.names_put]
      split
      · assumption
      · simp
    rw [Assoc.put_comm (y := Statement.countArg) (by decide) (hmem _), Assoc.put_put]

theorem writable_of_store? {store : Store} (h : k.store? args = some store) : k.Writable := by
  simp only [store?, Tagged.ofInt?, Numeral.write?, Option.bind_eq_some_iff,
    Option.map_eq_some_iff, Option.ite_none_right_eq_some] at h
  obtain ⟨_, ⟨_, ⟨hstarted, -⟩, -⟩, _, ⟨_, ⟨hcount, -⟩, -⟩, -⟩ := h
  exact ⟨hstarted, hcount⟩

end Counter

/-! ### A loop on stores -/

namespace Activation

variable {a : Activation} {index : LoopIndex} {k : Counter}

theorem scratch_of_lookup {p : Nat} (h : a.loops.lookup p = some k) :
    a.scratch p = k.store? a.args := by
  rw [scratch, h, Option.bind_some]

theorem scratch_of_lookup_none {p : Nat} (h : a.loops.lookup p = none) : a.scratch p = none := by
  rw [scratch, h, Option.bind_none]

theorem scratch_congr {b : Activation} (hargs : b.args = a.args) (hloops : b.loops = a.loops) :
    b.scratch = a.scratch := by
  funext p
  rw [scratch, scratch, hargs, hloops]

@[simp] theorem args_pass (a : Activation) (index : LoopIndex) (k : Counter) :
    (a.pass index k).args = a.args := by
  unfold pass
  dsimp only
  split <;> rfl

theorem scratch_pass_of_ne {p : Nat} (hp : p ≠ a.pos) (index : LoopIndex) (k : Counter) :
    (a.pass index k).scratch p = a.scratch p := by
  rw [scratch, scratch, lookup_pass_of_ne hp, args_pass]

/-- The stores behind a `pass` that is started. -/
theorem scratch_pass_of_lt {i n : Int} (h : i < n) :
    (a.pass index ⟨i, n⟩).scratch =
      Function.update a.scratch a.pos (Counter.store? ⟨i + 1, n⟩ a.args) := by
  funext p
  by_cases hp : p = a.pos
  · subst hp
    rw [Function.update_self, scratch_of_lookup (lookup_pass_of_lt h), args_pass]
  · rw [Function.update_of_ne hp, scratch_pass_of_ne hp]

/-- The stores behind a `pass` that ends the loop. -/
theorem scratch_pass_of_le {i n : Int} (h : n ≤ i) :
    (a.pass index ⟨i, n⟩).scratch = Function.update a.scratch a.pos none := by
  funext p
  by_cases hp : p = a.pos
  · subst hp
    rw [Function.update_self, scratch_of_lookup_none (lookup_pass_of_le h)]
  · rw [Function.update_of_ne hp, scratch_pass_of_ne hp]

end Activation

namespace Scratch

variable {a : Activation} {index : LoopIndex} {k : Counter} {q : Nat}

/-- A `pass` by the numbers of a store is the pass by the counter that the store holds. -/
theorem pass_eq (hk : k.Writable) (hpos : 0 ≤ k.started) (hq : index.partner? a.pos = some q)
    (w : World) :
    pass (Function.update a.scratch a.pos (k.store? a.args)) index a.pos =
      some (Turn.next (a.pass index k) w).scratch := by
  obtain ⟨i, n⟩ := k
  obtain ⟨store, hstore, hholds⟩ := Counter.exists_store? hk a.args
  simp only [pass, hstore, Function.update_self, hholds.index, hholds.count, Option.bind_eq_bind,
    Option.bind_some]
  by_cases hlt : i < n
  · have hnext : Numeral.writable (i + 1) = true :=
      Numeral.writable_of_le (Int.le_add_one hpos) hlt hk.count
    rw [if_pos hlt, Tagged.ofInt?_of_writable hnext, Option.bind_some, Function.update_idem,
      Turn.scratch, Activation.scratch_pass_of_lt hlt, Activation.pos_pass_of_lt hlt,
      hholds.next _ hnext]
    rfl
  · have hle : n ≤ i := Int.not_lt.1 hlt
    rw [if_neg hlt, hq, Option.bind_some, Function.update_idem, Turn.scratch,
      Activation.scratch_pass_of_le hle, Activation.pos_pass_of_le hle,
      LoopIndex.partner_of_partner? hq]
    rfl

/-- A `loop` that counts in variables finds all that it looks up, and does what the loop with a
counter does. -/
theorem loop_eq {s : Statement} {w : World} (hq : index.partner? a.pos = some q)
    (hrange : ∀ k, a.loops.lookup a.pos = some k → k.InRange) :
    a.scratch.loop a.args index a.pos (Activation.loopCount (a.memory w) s) =
      some (a.loop s w index).scratch := by
  unfold loop Activation.loop
  cases hk : a.loops.lookup a.pos with
  | some k =>
      have hwritable := (hrange k hk).toWritable
      have hpos := (hrange k hk).pos
      obtain ⟨store, hstore, -⟩ := Counter.exists_store? hwritable a.args
      have hpass := pass_eq hwritable (by omega) hq w
      have hself := Activation.scratch_of_lookup hk
      rw [← hself, Function.update_eq_self] at hpass
      rw [hself, hstore]
      exact hpass
  | none =>
      rw [Activation.scratch_of_lookup_none hk]
      cases Activation.loopCount (a.memory w) s with
      | error e =>
          simp only [hq, Option.map_some]
          rw [Turn.scratch, LoopIndex.partner_of_partner? hq]
          rfl
      | ok n =>
          dsimp only
          by_cases hn : Numeral.writable n = true
          · have hzero : Numeral.writable 0 = true := by decide +kernel
            have hwritable : Counter.Writable ⟨0, n⟩ := ⟨hzero, hn⟩
            obtain ⟨store, hstore, -⟩ := Counter.exists_store? hwritable a.args
            rw [if_pos hn, hstore]
            dsimp only
            rw [← hstore]
            exact pass_eq hwritable (Int.le_refl 0) hq w
          · have hnone : Counter.store? ⟨0, n⟩ a.args = none := by
              rw [Option.eq_none_iff_forall_ne_some]
              intro store hstore
              exact hn (Counter.writable_of_store? hstore).count
            rw [if_neg hn, hnone]
            rfl

end Scratch

/-! ### The stores of a call -/

namespace Engine

/-- The stores that a call has come to on its way from `start`, by what each statement does to
them. -/
inductive Keeps (E : Engine) (start : Configuration) : Configuration → Scratch → Prop
  /-- A call begins without any. -/
  | start : Keeps E start start fun _ => none
  /-- A `loop` writes the store of that loop. -/
  | loop {c c' : Configuration} {scratch scratch' : Scratch} {s : Statement} {index : LoopIndex}
      {pos : Nat} (h : Keeps E start c scratch) (hstep : E.Steps c c')
      (hs : c.activation.current? = some s) (hform : s.form = .loop)
      (hindex : c.activation.function.loopIndex = .ok index)
      (hloop : scratch.loop c.activation.args index c.pos
        (Activation.loopCount (c.activation.memory c.world) s) = some (.next scratch' pos)) :
      Keeps E start c' scratch'
  /-- No other statement does. -/
  | other {c c' : Configuration} {scratch : Scratch} {s : Statement} (h : Keeps E start c scratch)
      (hstep : E.Steps c c') (hs : c.activation.current? = some s) (hform : s.form ≠ .loop) :
      Keeps E start c' scratch

/-- What is known of the loops of a call that stands at a statement, and of their stores
`scratch`. -/
structure Counted (E : Engine) (index : LoopIndex) (start c : Configuration) (scratch : Scratch) :
    Prop where
  /-- The loops with a store are those that `Surrounds` finds around the position of the call,
  and the one that it `Reenters`. -/
  keys : ∀ p, (∃ store, scratch p = some store) ↔
    index.Surrounds c.forms p c.pos ∨ p = c.pos ∧ E.Reenters index start c
  /-- A store holds which pass is run, and of how many: as many as were counted out when the
  loop was `Entered`. -/
  numbers : ∀ p store, scratch p = some store → ∃ i n, store.number? indexName = some i ∧
    store.number? Statement.countArg = some n ∧ 1 ≤ i ∧ i ≤ n ∧ E.Entered start p n c
  /-- The call goes on at a statement, or right behind the last one. -/
  positions : ∀ c', E.Steps c c' → c'.pos ≤ c.activation.function.size
  /-- Where a loop opens, all that is looked up is there. -/
  opens : ∀ s, c.activation.current? = some s → s.form = .loop →
    scratch.loop c.activation.args index c.pos
      (Activation.loopCount (c.activation.memory c.world) s) =
        some (c.activation.loop s c.world index).scratch
  /-- Where a loop closes, the place where it opens is known. -/
  closes : ∀ s, c.activation.current? = some s → s.form = .endLoop →
    ∃ p, index.partner? c.pos = some p ∧ E.Steps c ⟨c.depth, c.activation.goto p, c.world⟩

variable {E : Engine} {c c' start : Configuration} {index : LoopIndex} {s : Statement}
  {scratch : Scratch}

theorem Keeps.path (h : E.Keeps start c scratch) : ReflTransGen E.Steps start c := by
  induction h with
  | start => exact .refl
  | loop _ hstep _ _ _ _ ih => exact ih.tail hstep
  | other _ hstep _ _ ih => exact ih.tail hstep

theorem loop_of_steps (hindex : c.activation.function.loopIndex = .ok index)
    (hs : c.activation.current? = some s) (hform : s.form = .loop) (h : E.Steps c c') :
    c.activation.loop s c.world index = .next c'.activation c'.world := by
  cases h with
  | next hs' hstep =>
      cases hs.symm.trans hs'
      simpa only [step, hform, Activation.withIndex, hindex, Option.some.injEq] using hstep

theorem loops_of_steps (hindex : c.activation.function.loopIndex = .ok index)
    (hs : c.activation.current? = some s) (hform : s.form ≠ .loop) (h : E.Steps c c') :
    c'.activation.loops = c.activation.loops := by
  obtain ⟨s', hs', hmoves⟩ := moves_of_steps hindex h
  cases hs.symm.trans hs'
  cases hmoves with
  | advances _ _ hloops => exact hloops
  | returns _ _ hloops => exact hloops
  | closes _ _ hloops => exact hloops
  | again hloop _ _ => exact absurd hloop hform
  | enters hloop _ _ _ _ => exact absurd hloop hform
  | skips hloop _ _ _ => exact absurd hloop hform

theorem partner?_of_loop (hindex : c.activation.function.loopIndex = .ok index)
    (hs : c.activation.current? = some s) (hform : s.form = .loop) :
    ∃ q, index.partner? c.pos = some q := by
  have hopen := Configuration.form_of_current? hs
  rw [hform] at hopen
  obtain ⟨q, hq, -⟩ := (matching_of_loopIndex hindex).loop c.pos hopen
  exact ⟨q, hq⟩

/-- Where a loop opens, a call that has come there finds in its `scratch` all that it looks up.
-/
theorem opens_of_path (hstart : start.Begins) (hpath : ReflTransGen E.Steps start c)
    (hindex : c.activation.function.loopIndex = .ok index)
    (hs : c.activation.current? = some s) (hform : s.form = .loop) :
    c.activation.scratch.loop c.activation.args index c.pos
      (Activation.loopCount (c.activation.memory c.world) s) =
        some (c.activation.loop s c.world index).scratch := by
  obtain ⟨q, hq⟩ := partner?_of_loop hindex hs hform
  rw [function_of_path hpath] at hindex
  exact Scratch.loop_eq hq fun k hk => inRange_of_path hstart hindex hpath hk

theorem scratch_of_begins (h : start.Begins) : start.activation.scratch = fun _ => none := by
  funext p
  exact Activation.scratch_of_lookup_none (counter?_of_begins h p)

/-- The stores that a call `Keeps` are its counters. -/
theorem Keeps.scratch_eq (hstart : start.Begins)
    (hindex : start.activation.function.loopIndex = .ok index) (h : E.Keeps start c scratch) :
    scratch = c.activation.scratch := by
  induction h with
  | start => exact (scratch_of_begins hstart).symm
  | loop h hstep hs hform hindex' hloop ih =>
      subst ih
      have hopens := opens_of_path hstart h.path hindex' hs hform
      rw [hloop, loop_of_steps hindex' hs hform hstep, Turn.scratch] at hopens
      cases hopens
      rfl
  | other h hstep hs hform ih =>
      rw [← function_of_path h.path] at hindex
      rw [ih]
      exact (Activation.scratch_congr hstep.args_eq (loops_of_steps hindex hs hform hstep)).symm

/-- Wherever a call comes to, it `Keeps` stores: no opening statement on the way has looked up
something in vain. -/
theorem keeps_scratch (hstart : start.Begins)
    (hindex : start.activation.function.loopIndex = .ok index)
    (hpath : ReflTransGen E.Steps start c) : E.Keeps start c c.activation.scratch := by
  induction hpath with
  | refl =>
      rw [scratch_of_begins hstart]
      exact .start
  | @tail d c hpath hstep ih =>
      rw [← function_of_path hpath] at hindex
      obtain ⟨s, hs, -⟩ := moves_of_steps hindex hstep
      by_cases hform : s.form = .loop
      · have hopens := opens_of_path hstart hpath hindex hs hform
        rw [loop_of_steps hindex hs hform hstep] at hopens
        exact .loop ih hstep hs hform hindex hopens
      · rw [Activation.scratch_congr hstep.args_eq (loops_of_steps hindex hs hform hstep)]
        exact .other ih hstep hs hform

/-- The loops with a store are those with a `counter?`. -/
theorem exists_scratch_iff (hstart : start.Begins)
    (hindex : start.activation.function.loopIndex = .ok index)
    (hpath : ReflTransGen E.Steps start c) (p : Nat) :
    (∃ store, c.activation.scratch p = some store) ↔ ∃ k, c.counter? p = some k := by
  constructor
  · intro h
    obtain ⟨store, hstore⟩ := h
    obtain ⟨k, hk, -⟩ := Option.bind_eq_some_iff.1 hstore
    exact ⟨k, hk⟩
  · intro h
    obtain ⟨k, hk⟩ := h
    obtain ⟨store, hstore, -⟩ :=
      Counter.exists_store? (inRange_of_path hstart hindex hpath hk).toWritable c.activation.args
    exact ⟨store, (Activation.scratch_of_lookup hk).trans hstore⟩

theorem counted_of_path (hstart : start.Begins)
    (hindex : start.activation.function.loopIndex = .ok index)
    (hpath : ReflTransGen E.Steps start c) (hlt : c.pos < c.activation.function.size) :
    E.Counted index start c c.activation.scratch := by
  have hindexc : c.activation.function.loopIndex = .ok index := by
    rw [function_of_path hpath, hindex]
  refine ⟨?keys, ?numbers, ?positions, ?opens, ?closes⟩
  case keys =>
    intro p
    rw [exists_scratch_iff hstart hindex hpath, counter_iff_of_path hstart hindex hpath hlt]
  case numbers =>
    intro p store hstore
    obtain ⟨k, hk, hstore⟩ := Option.bind_eq_some_iff.1 hstore
    have hrange := inRange_of_path hstart hindex hpath hk
    obtain ⟨store', hstore', hholds⟩ :=
      Counter.exists_store? hrange.toWritable c.activation.args
    cases hstore.symm.trans hstore'
    exact ⟨k.started, k.count, hholds.index, hholds.count, hrange.pos, hrange.le,
      entered_of_path hstart hindex hpath hk⟩
  case positions =>
    intro c' hstep
    exact pos_le_of_steps hindexc hstep
  case opens =>
    intro s hs hform
    exact opens_of_path hstart hpath hindexc hs hform
  case closes =>
    intro s hs hform
    have hm := matching_of_loopIndex hindexc
    obtain ⟨p, henc⟩ := hm.exists_start (hform ▸ Configuration.form_of_current? hs)
    have hp := (hm.pairs c.pos p).2 (.inr henc)
    have hstep : E.step (E.call 0 (c.depth + 1)) c.activation s c.world =
        some (.next (c.activation.goto p) c.world) := by
      simp only [step, hform, Activation.withIndex, hindexc, LoopIndex.partner_of_partner? hp]
    exact ⟨p, hp, .next hs hstep⟩

/-! ### Nested calls -/

theorem Visits.trans {c'' : Configuration} (h : E.Visits c c') (h' : E.Visits c' c'') :
    E.Visits c c'' := by
  induction h with
  | here => exact h'
  | next hs hstep _ ih => exact .next hs hstep (ih h')
  | call hs hform hactuals hentry _ ih => exact .call hs hform hactuals hentry (ih h')

theorem visits_of_path (h : ReflTransGen E.Steps c c') : E.Visits c c' := by
  induction h using ReflTransGen.head_induction_on with
  | refl => exact .here c'
  | head hstep _ ih =>
      cases hstep with
      | next hs hstep => exact .next hs hstep ih

/-- What a call `Visits`, it comes to from the beginning of a call. -/
theorem exists_begins_of_visits {top : Configuration} (h : E.Visits c c') (hstart : start.Begins)
    (htop : E.Visits top start) (hpath : ReflTransGen E.Steps start c) :
    ∃ first, first.Begins ∧ E.Visits top first ∧ ReflTransGen E.Steps first c' := by
  induction h generalizing start with
  | here c => exact ⟨start, hstart, htop, hpath⟩
  | next hs hstep _ ih => exact ih hstart htop (hpath.tail (.next hs hstep))
  | call hs hform hactuals hentry _ ih =>
      have hcall := htop.trans ((visits_of_path hpath).trans
        (.call hs hform hactuals hentry (.here _)))
      exact ih ⟨_, _, rfl⟩ hcall .refl

/-- **The stores of loops.** Wherever a call comes to in a function whose loops pair up, also by
nested calls (`Visits`) and behind statements that fail: the loops that have a store are those
around the position and the one to whose opening statement the call has just come back; each
store holds the number of a pass and a count that is not exceeded, which is that of when the
loop was entered; and no jump leaves the function. So all that loops look up is there
(`Counted`). -/
theorem loops_counted (E : Engine) {top c : Configuration} (htop : top.Begins)
    (hvisit : E.Visits top c) (hbalanced : Balanced c.forms)
    (hlt : c.pos < c.activation.function.size) :
    ∃ index, c.activation.function.loopIndex = .ok index ∧
      (∃ start scratch, start.Begins ∧ E.Visits top start ∧ E.Keeps start c scratch) ∧
      ∀ start scratch, start.Begins → E.Keeps start c scratch →
        E.Counted index start c scratch := by
  obtain ⟨index, hindex⟩ := Block.balanced_iff_loopIndex.1 hbalanced
  refine ⟨index, hindex, ?_, ?_⟩
  · obtain ⟨start, hstart, hvisits, hpath⟩ :=
      exists_begins_of_visits hvisit htop (.here top) .refl
    rw [function_of_path hpath] at hindex
    exact ⟨start, _, hstart, hvisits, keeps_scratch hstart hindex hpath⟩
  · intro start scratch hstart hkeeps
    have hpath := hkeeps.path
    rw [function_of_path hpath] at hindex
    rw [hkeeps.scratch_eq hstart hindex]
    exact counted_of_path hstart hindex hpath hlt

/-- An engine with a function `f` that makes two passes of a loop. -/
def looping : Engine := { functions := [("f", emptyLoop ⟨"int", "2"⟩)] }

/-- A function that calls `f`. -/
def callingLoop : Function := .make "main" [] [.callFunction "f" {} ""] ""

/-- A call of `f`, in the first pass of the loop. -/
def inFirstPass : Configuration where
  depth := 1
  activation := (Activation.start (emptyLoop ⟨"int", "2"⟩) {}).pass ⟨[(0, 1)]⟩ ⟨0, 2⟩
  world := (World.record ⟨{}, #[]⟩ (.enter "f")).forgetReturn

theorem loops_counted_inFirstPass :
    looping.Visits ⟨0, .start callingLoop {}, ⟨{}, #[]⟩⟩ inFirstPass ∧
    ∃ start scratch store, looping.Keeps start inFirstPass scratch ∧ scratch 0 = some store ∧
      ∃ i n, store.number? indexName = some i ∧ store.number? Statement.countArg = some n ∧
        1 ≤ i ∧ i ≤ n ∧ looping.Entered start 0 n inFirstPass := by
  have hstep : looping.step (looping.call 0 (1 + 1)) (.start (emptyLoop ⟨"int", "2"⟩) {})
      (.loop ⟨"int", "2"⟩ "") inFirstPass.world =
        some (.next inFirstPass.activation inFirstPass.world) := by
    have hw : Numeral.writable 2 = true := by decide +kernel
    have hindex : (emptyLoop ⟨"int", "2"⟩).loopIndex = .ok ⟨[(0, 1)]⟩ := rfl
    have hcases := @step_loop_cases looping (looping.call 0 (1 + 1))
      (.start (emptyLoop ⟨"int", "2"⟩) {}) (.loop ⟨"int", "2"⟩ "") inFirstPass.world _ rfl hindex
      rfl
    rcases hcases with ⟨n, hn, -, hpass⟩ | ⟨e, he, -⟩ | ⟨n, hn, hlong, -⟩
    · cases hn
      exact hpass
    · cases he
    · cases hn
      cases hlong.symm.trans hw
  have hvisit : looping.Visits ⟨0, .start callingLoop {}, ⟨{}, #[]⟩⟩ inFirstPass :=
    .call rfl rfl rfl rfl (.next rfl hstep (.here inFirstPass))
  have hbalanced : Balanced inFirstPass.forms := @Balanced.loop [] [] .nil .nil
  obtain ⟨index, hindex, ⟨start, scratch, hstart, -, hkeeps⟩, hcounted⟩ :=
    loops_counted looping ⟨_, _, rfl⟩ hvisit hbalanced (by decide)
  have hcounted := hcounted start scratch hstart hkeeps
  cases hindex
  obtain ⟨store, hstore⟩ := (hcounted.keys 0).2 (.inl ⟨rfl, 1, rfl, by decide, by decide⟩)
  exact ⟨hvisit, start, scratch, store, hkeeps, hstore, hcounted.numbers 0 store hstore⟩

end Engine

end BusScript
