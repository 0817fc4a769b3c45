import BusScript.Proofs.Passes
import BusScript.Proofs.Passing

/-!
# The counters of loops

A call has counters for the loops that it is running. Which loops these are can be read
off its position: a loop has a counter exactly if the position lies behind its opening
statement and not behind its end. There is one exception, an opening statement to
which the call has just come back from the end of the loop (`counter_iff_of_path`). So
no loop ever finds a counter that an earlier run of it has left.

* `Encloses.apart_or_nested` — loops lie apart or inside of each other;
* `moves_of_steps` — what a step does to position and counters;
* `aligned_of_steps` — a step keeps them together, case by case;
* `inRange_of_path`, `entered_of_path` — what a counter holds, from how it came about
  (`Moves.counter_cases`).
-/

namespace BusScript

open Relation (ReflTransGen)

/-! ### Where loops lie -/

namespace Encloses

variable {forms : List Form} {p q p' q' : Nat}

/-- Two loops that `Encloses` lets close at one position open at one position. -/
theorem start_unique (h : Encloses forms p q) (h' : Encloses forms p' q) : p = p' := by
  have hle : ∀ {p p'}, Encloses forms p q → Encloses forms p' q → ¬ p < p' := by
    intro p p' h h' hlt
    have hinner := h.inner
    rw [between_eq_append hlt h'.lt h'.opens] at hinner
    exact hinner.not_loop_append h'.inner
  exact Nat.le_antisymm (Nat.not_lt.1 (hle h' h)) (Nat.not_lt.1 (hle h h'))

/-- Two loops that the list `forms` encloses are the same, or one lies behind the other, or
inside of it. -/
theorem apart_or_nested (h : Encloses forms p q) (h' : Encloses forms p' q') :
    (p = p' ∧ q = q') ∨ q < p' ∨ q' < p ∨ (p < p' ∧ q' < q) ∨ (p' < p ∧ q < q') := by
  have hlt := h.lt
  have hlt' := h'.lt
  have hcross := h.not_crossing h'
  have hcross' := h'.not_crossing h
  have hclose : q ≠ p' := by
    intro heq
    subst heq
    cases h.closes.symm.trans h'.opens
  have hclose' : q' ≠ p := by
    intro heq
    subst heq
    cases h'.closes.symm.trans h.opens
  have hstart : p = p' → q = q' := by
    intro heq
    subst heq
    exact h.unique h'
  have hstop : q = q' → p = p' := by
    intro heq
    subst heq
    exact h.start_unique h'
  omega

end Encloses

/-- A loop opens at `p`, and the position `e` lies between `p` and its partner, the latter
included. -/
def LoopIndex.Surrounds (index : LoopIndex) (forms : List Form) (p e : Nat) : Prop :=
  forms[p]? = some .loop ∧ ∃ q, index.partner? p = some q ∧ p < e ∧ e ≤ q

theorem LoopIndex.partner_of_partner? {index : LoopIndex} {p q : Nat}
    (h : index.partner? p = some q) : index.partner p = q := by
  rw [partner, h, Option.getD_some]

namespace Matching

variable {forms : List Form} {index : LoopIndex} {p e q r : Nat}

/-- Where an `endLoop` stands, a loop has been opened before. -/
theorem exists_start (h : Matching forms index) (he : forms[e]? = some .endLoop) :
    ∃ r, Encloses forms r e := by
  obtain ⟨r, hr⟩ := Option.isSome_iff_exists.1 ((h.keys e).2 ⟨_, he, rfl⟩)
  refine ⟨r, ((h.pairs e r).1 hr).resolve_left fun henc => ?_⟩
  cases he.symm.trans henc.opens

/-- What `Surrounds` says by the partners of the index, `Encloses` says by the forms. -/
theorem surrounds_iff (h : Matching forms index) :
    index.Surrounds forms p e ↔ ∃ q, Encloses forms p q ∧ p < e ∧ e ≤ q := by
  constructor
  · intro hsurrounds
    obtain ⟨hopen, q, hq, hlt, hle⟩ := hsurrounds
    obtain ⟨q', hq', henc⟩ := h.loop p hopen
    cases hq.symm.trans hq'
    exact ⟨q, henc, hlt, hle⟩
  · intro hsurrounds
    obtain ⟨q, henc, hlt, hle⟩ := hsurrounds
    exact ⟨henc.opens, q, (h.pairs p q).2 (.inl henc), hlt, hle⟩

/-- A statement that is no bracket is surrounded by the same loops as the next one. -/
theorem surrounds_plain {form : Form} (h : Matching forms index) (he : forms[e]? = some form)
    (hform : form.isBracket = false) :
    index.Surrounds forms p (e + 1) ↔ index.Surrounds forms p e := by
  rw [h.surrounds_iff, h.surrounds_iff]
  refine exists_congr fun q => and_congr_right fun henc => ?_
  have hp : p ≠ e := by
    intro heq
    subst heq
    cases he.symm.trans henc.opens
    cases hform
  have hq : q ≠ e := by
    intro heq
    subst heq
    cases he.symm.trans henc.closes
    cases hform
  omega

/-- The opening of the loop from `r` to `e` is surrounded by the loops that surround its end,
but for the loop itself. -/
theorem surrounds_back (h : Matching forms index) (henc : Encloses forms r e) (hp : p ≠ r) :
    index.Surrounds forms p r ↔ index.Surrounds forms p e := by
  rw [h.surrounds_iff, h.surrounds_iff]
  refine exists_congr fun q => and_congr_right fun henc' => ?_
  have hlt := henc.lt
  have hnested := henc.apart_or_nested henc'
  omega

/-- The first statement of the loop that opens at `e` is surrounded by that loop in addition. -/
theorem surrounds_enter (h : Matching forms index) (henc : Encloses forms e q) :
    index.Surrounds forms p (e + 1) ↔ p = e ∨ index.Surrounds forms p e := by
  rw [h.surrounds_iff, h.surrounds_iff]
  constructor
  · intro hsurrounds
    obtain ⟨q', henc', hlt, hle⟩ := hsurrounds
    by_cases hp : p = e
    · exact .inl hp
    · have hnested := henc.apart_or_nested henc'
      exact .inr ⟨q', henc', by omega, by omega⟩
  · intro hsurrounds
    rcases hsurrounds with rfl | ⟨q', henc', hlt, hle⟩
    · exact ⟨q, henc, Nat.lt_succ_self p, henc.lt⟩
    · have hopen := henc.lt
      have hnested := henc.apart_or_nested henc'
      exact ⟨q', henc', by omega, by omega⟩

/-- Behind the loop from `e` to `q` there are the loops around it. -/
theorem surrounds_behind (h : Matching forms index) (henc : Encloses forms e q) :
    index.Surrounds forms p (q + 1) ↔ index.Surrounds forms p e := by
  rw [h.surrounds_iff, h.surrounds_iff]
  refine exists_congr fun q' => and_congr_right fun henc' => ?_
  have hlt := henc.lt
  have hnested := henc.apart_or_nested henc'
  omega

end Matching

/-! ### One step -/

namespace Activation

variable {a : Activation} {index : LoopIndex}

theorem lookup_pass_of_le {k n : Int} (h : n ≤ k) :
    (a.pass index ⟨k, n⟩).loops.lookup a.pos = none := by
  rw [pass, if_neg (by simpa using h)]
  show (a.loops.filter (·.1 ≠ a.pos)).lookup a.pos = none
  rw [List.lookup_eq_none_iff]
  intro l hl
  have hne : l.1 ≠ a.pos := by simpa using (List.mem_filter.1 hl).2
  simpa using hne.symm

theorem pos_of_ret {s : Statement} {w w' : World} {a' : Activation}
    (h : a.ret s w = .next a' w') : a'.pos = a.function.size := by
  unfold ret at h
  split at h
  · cases h
    rfl
  · cases h
    rfl
  · split at h <;> cases h <;> rfl

end Activation

/-- The counter of the loop that opens at `p`, if it is being run. -/
abbrev Configuration.counter? (c : Configuration) (p : Nat) : Option Counter :=
  c.activation.loops.lookup p

/-- The forms of the statements of `c.activation.function`. -/
abbrev Configuration.forms (c : Configuration) : List Form :=
  c.activation.function.body.map (·.form)

theorem Configuration.form_of_current? {c : Configuration} {s : Statement}
    (hs : c.activation.current? = some s) : c.forms[c.pos]? = some s.form := by
  rw [List.getElem?_map]
  exact Option.map_eq_some_iff.2 ⟨s, hs, rfl⟩

/-- What a statement does to the position and the counters of a call whose loops pair up by
`index`. -/
inductive Moves (index : LoopIndex) (s : Statement) (c c' : Configuration) : Prop
  /-- The next statement follows. -/
  | advances (hplain : s.form.isBracket = false) (hpos : c'.pos = c.pos + 1)
      (hloops : c'.activation.loops = c.activation.loops)
  /-- The call is over, at the `size` of the function. -/
  | returns (hform : s.form = .ret) (hpos : c'.pos = c.activation.function.size)
      (hloops : c'.activation.loops = c.activation.loops)
  /-- The end of a loop leads back to its partner, where it opens. -/
  | closes (hform : s.form = .endLoop) (hpos : c'.pos = index.partner c.pos)
      (hloops : c'.activation.loops = c.activation.loops)
  /-- A loop that is being run starts another pass, or ends, as `pass` decides. -/
  | again {k : Counter} (hform : s.form = .loop) (hk : c.counter? c.pos = some k)
      (hpass : c'.activation = c.activation.pass index k)
  /-- A loop is entered with the count that `loopCount` reads now. -/
  | enters {n : Int} (hform : s.form = .loop) (hnone : c.counter? c.pos = none)
      (hcount : Activation.loopCount (c.activation.memory c.world) s = .ok n)
      (hw : Numeral.writable n = true) (hpass : c'.activation = c.activation.pass index ⟨0, n⟩)
  /-- A loop is left out. -/
  | skips (hform : s.form = .loop) (hnone : c.counter? c.pos = none)
      (hpos : c'.pos = index.partner c.pos + 1)
      (hloops : c'.activation.loops = c.activation.loops)

/-- A counter that a step leaves at `p` has been there, or has been raised by one, or belongs to
a loop that is entered with the count of `loopCount`. -/
theorem Moves.counter_cases {index : LoopIndex} {s : Statement} {c c' : Configuration} {p : Nat}
    {k : Counter} (h : Moves index s c c') (hk : c'.counter? p = some k) :
    c.counter? p = some k ∨
    (∃ i, c.counter? p = some ⟨i, k.count⟩ ∧ k.started = i + 1 ∧ i < k.count) ∨
    (p = c.pos ∧ s.form = .loop ∧ c.counter? p = none ∧
      Activation.loopCount (c.activation.memory c.world) s = .ok k.count ∧
      Numeral.writable k.count = true ∧ k.started = 1 ∧ 0 < k.count) := by
  -- what a pass leaves
  have hpasses : ∀ {i n : Int}, c'.activation = c.activation.pass index ⟨i, n⟩ →
      c.counter? p = some k ∨ p = c.pos ∧ i < n ∧ k = ⟨i + 1, n⟩ := by
    intro i n hpass
    rw [Configuration.counter?, hpass] at hk
    by_cases hp : p = c.pos
    · rw [hp] at hk
      by_cases hlt : i < n
      · rw [Activation.lookup_pass_of_lt hlt] at hk
        cases hk
        exact .inr ⟨hp, hlt, rfl⟩
      · rw [Activation.lookup_pass_of_le (by omega)] at hk
        cases hk
    · rw [Activation.lookup_pass_of_ne hp] at hk
      exact .inl hk
  have hkept : c'.activation.loops = c.activation.loops → c.counter? p = some k := by
    intro hloops
    rwa [Configuration.counter?, ← hloops]
  cases h with
  | advances _ _ hloops => exact .inl (hkept hloops)
  | returns _ _ hloops => exact .inl (hkept hloops)
  | closes _ _ hloops => exact .inl (hkept hloops)
  | skips _ _ _ hloops => exact .inl (hkept hloops)
  | @again k' hform hk' hpass =>
      obtain ⟨i, n⟩ := k'
      rcases hpasses hpass with hold | ⟨hp, hlt, hnew⟩
      · exact .inl hold
      · subst hp hnew
        exact .inr (.inl ⟨i, hk', rfl, hlt⟩)
  | enters hform hnone hcount hw hpass =>
      rcases hpasses hpass with hold | ⟨hp, hlt, hnew⟩
      · exact .inl hold
      · subst hp hnew
        exact .inr (.inr ⟨rfl, hform, hnone, hcount, hw, rfl, hlt⟩)

/-! ### Which loops have a counter -/

/-- The loops with a counter are those that the index says surround the position `c.pos`. -/
def CountsAround (index : LoopIndex) (c : Configuration) : Prop :=
  ∀ p, (∃ k, c.counter? p = some k) ↔ index.Surrounds c.forms p c.pos

/-- The loops with a counter are those around the position of a call, and perhaps one that opens
there. This is what holds right after an `endLoop`, where `CountsAround` does not. -/
structure Aligned (index : LoopIndex) (c : Configuration) : Prop where
  others : ∀ p, p ≠ c.pos → ((∃ k, c.counter? p = some k) ↔ index.Surrounds c.forms p c.pos)
  own : ∀ k, c.counter? c.pos = some k → c.forms[c.pos]? = some .loop

variable {c c' : Configuration} {index : LoopIndex}

theorem LoopIndex.not_surrounds_self (index : LoopIndex) (forms : List Form) (e : Nat) :
    ¬ index.Surrounds forms e e := by
  intro h
  obtain ⟨-, q, -, hlt, -⟩ := h
  omega

theorem CountsAround.aligned (h : CountsAround index c) : Aligned index c where
  others p _ := h p
  own k hk := absurd ((h c.pos).1 ⟨k, hk⟩) (index.not_surrounds_self _ _)

/-- The two differ in a loop that opens at `c.pos` only. -/
theorem Aligned.countsAround (h : Aligned index c) (hnone : c.counter? c.pos = none) :
    CountsAround index c := by
  intro p
  by_cases hp : p = c.pos
  · subst hp
    simp [hnone, LoopIndex.not_surrounds_self]
  · exact h.others p hp

/-- Where no `loop` opens, none has a counter. -/
theorem Aligned.counter?_eq_none (h : Aligned index c) {form : Form}
    (hform : c.forms[c.pos]? = some form) (hne : form ≠ .loop) : c.counter? c.pos = none := by
  by_contra hsome
  obtain ⟨k, hk⟩ := Option.ne_none_iff_exists'.1 hsome
  exact hne (Option.some.inj (hform.symm.trans (h.own k hk)))

/-- Whether `Activation.pass` starts another pass or not, it leaves counters of the loops around
where it leads. -/
theorem countsAround_of_pass {q : Nat} {k : Counter} (hm : Matching c.forms index)
    (h : Aligned index c) (henc : Encloses c.forms c.pos q) (hforms : c'.forms = c.forms)
    (hpass : c'.activation = c.activation.pass index k) : CountsAround index c' := by
  obtain ⟨started, count⟩ := k
  have hpartner : index.partner c.pos = q :=
    LoopIndex.partner_of_partner? ((hm.pairs c.pos q).2 (.inl henc))
  intro p
  have hothers : p ≠ c.pos → c'.counter? p = c.counter? p := by
    intro hp
    rw [Configuration.counter?, hpass]
    exact Activation.lookup_pass_of_ne hp index _
  rw [hforms]
  by_cases hlt : started < count
  · have hpos : c'.pos = c.pos + 1 := by
      rw [Configuration.pos, hpass, Activation.pos_pass_of_lt hlt]
    rw [hpos, hm.surrounds_enter henc]
    by_cases hp : p = c.pos
    · have hown : c'.counter? p = some ⟨started + 1, count⟩ := by
        rw [hp, Configuration.counter?, hpass]
        exact Activation.lookup_pass_of_lt hlt
      exact iff_of_true ⟨_, hown⟩ (.inl hp)
    · rw [hothers hp, or_iff_right hp]
      exact h.others p hp
  · have hle : count ≤ started := by omega
    have hpos : c'.pos = q + 1 := by
      rw [Configuration.pos, hpass, Activation.pos_pass_of_le hle, ← hpartner]
    rw [hpos, hm.surrounds_behind henc]
    by_cases hp : p = c.pos
    · have hown : c'.counter? p = none := by
        rw [hp, Configuration.counter?, hpass]
        exact Activation.lookup_pass_of_le hle
      rw [hown, hp]
      simp [LoopIndex.not_surrounds_self]
    · rw [hothers hp]
      exact h.others p hp

/-- A first configuration of a call, as `Activation.start` makes it. -/
def Configuration.Begins (c : Configuration) : Prop :=
  ∃ f args, c.activation = .start f args

/-- A loop is in one of its passes, and their number is `writable`. -/
structure Counter.InRange (k : Counter) : Prop where
  pos : 1 ≤ k.started
  le : k.started ≤ k.count
  writable : Numeral.writable k.count = true

namespace Engine

variable {E : Engine} {c c' start : Configuration} {index : LoopIndex}

/-- A step of a call whose function has the `index` is one of `Moves`. -/
theorem moves_of_steps (hindex : c.activation.function.loopIndex = .ok index)
    (h : E.Steps c c') : ∃ s, c.activation.current? = some s ∧ Moves index s c c' := by
  cases h with
  | @next depth a a' w w' s fuel hs hstep =>
      refine ⟨s, hs, ?_⟩
      cases hform : s.form with
      | loop =>
          cases hk : a.loops.lookup a.pos with
          | some k =>
              simp only [step, hform, Activation.withIndex, hindex, Activation.loop, hk,
                Option.some.injEq, Turn.next.injEq] at hstep
              exact .again hform hk hstep.1.symm
          | none =>
              rcases step_loop_cases hform hindex hk with ⟨n, hn, hw, heq⟩ | ⟨e, -, heq⟩ |
                ⟨n, -, -, heq⟩
              · cases hstep.symm.trans heq
                exact .enters hform hk hn hw rfl
              · cases hstep.symm.trans heq
                exact .skips hform hk rfl rfl
              · cases hstep.symm.trans heq
      | endLoop =>
          simp only [step, hform, Activation.withIndex, hindex, Option.some.injEq] at hstep
          cases hstep
          exact .closes hform rfl rfl
      | ret =>
          simp only [step, hform, Option.some.injEq] at hstep
          exact .returns hform (Activation.pos_of_ret hstep) (Activation.next_of_ret hstep)
      | _ =>
          obtain ⟨hpos, hloops⟩ := advance_of_step (by rw [hform]; rfl) (by simp [hform]) hstep
          exact .advances (by rw [hform]; rfl) hpos hloops

/-- A step keeps counters and position `Aligned`, and only the end of a loop leads to where a
loop opens that has a counter. -/
theorem aligned_of_steps (hm : Matching c.forms index)
    (hindex : c.activation.function.loopIndex = .ok index) (h : Aligned index c)
    (hstep : E.Steps c c') (hlt : c'.pos < c'.activation.function.size) :
    CountsAround index c' ∨ Aligned index c' ∧ Encloses c.forms c'.pos c.pos := by
  have hfunction := hstep.function_eq
  have hforms : c'.forms = c.forms := by rw [Configuration.forms, hfunction]
  obtain ⟨s, hs, hmoves⟩ := moves_of_steps hindex hstep
  have hform := Configuration.form_of_current? hs
  -- where a loop opens, its end is known
  have hopens : s.form = .loop → ∃ q, index.partner c.pos = q ∧ Encloses c.forms c.pos q := by
    intro hloop
    obtain ⟨q, hq, henc⟩ := hm.loop c.pos (hloop ▸ hform)
    exact ⟨q, LoopIndex.partner_of_partner? hq, henc⟩
  cases hmoves with
  | advances hplain hpos hloops =>
      have hnone : c.counter? c.pos = none := by
        refine h.counter?_eq_none hform fun hloop => ?_
        simp [hloop, Form.isBracket] at hplain
      refine .inl fun p => ?_
      rw [Configuration.counter?, hloops, hforms, hpos, hm.surrounds_plain hform hplain]
      exact h.countsAround hnone p
  | returns hform hpos hloops =>
      rw [hpos, hfunction] at hlt
      omega
  | closes hclose hpos hloops =>
      rw [hclose] at hform
      obtain ⟨r, henc⟩ := hm.exists_start hform
      have hr : c'.pos = r := by
        rw [hpos, LoopIndex.partner_of_partner? ((hm.pairs c.pos r).2 (.inr henc))]
      have hcounter : ∀ p, c'.counter? p = c.counter? p := by
        intro p
        rw [Configuration.counter?, hloops]
      have hnone := h.counter?_eq_none hform (by decide)
      rw [hr]
      refine .inr ⟨⟨?_, ?_⟩, henc⟩
      · intro p hp
        rw [hr] at hp
        rw [hcounter, hforms, hr, hm.surrounds_back henc hp]
        exact h.countsAround hnone p
      · intro k _
        rw [hforms, hr]
        exact henc.opens
  | again hloop hk hpass =>
      obtain ⟨q, -, henc⟩ := hopens hloop
      exact .inl (countsAround_of_pass hm h henc hforms hpass)
  | enters hloop hnone hcount hw hpass =>
      obtain ⟨q, -, henc⟩ := hopens hloop
      exact .inl (countsAround_of_pass hm h henc hforms hpass)
  | skips hloop hnone hpos hloops =>
      obtain ⟨q, hq, henc⟩ := hopens hloop
      refine .inl fun p => ?_
      rw [Configuration.counter?, hloops, hforms, hpos, hq, hm.surrounds_behind henc]
      exact h.countsAround hnone p

/-! ### Along a call -/

/-- A call stands where a loop opens, and has just come from the partner of that position. -/
def Reenters (E : Engine) (index : LoopIndex) (start c : Configuration) : Prop :=
  ∃ d, ReflTransGen E.Steps start d ∧ E.Steps d c ∧ c.forms[c.pos]? = some .loop ∧
    index.partner? c.pos = some d.pos

/-- A step into or inside of the loop at `p`, which makes `count` passes. -/
structure StepsCounting (E : Engine) (p : Nat) (count : Int) (c c' : Configuration) : Prop where
  steps : E.Steps c c'
  counter : ∃ i, c'.counter? p = some ⟨i, count⟩

/-- A call has entered the loop at `p` with the `count` that its opening statement had there,
and has run it with that count since then. -/
inductive Entered (E : Engine) (start : Configuration) (p : Nat) (count : Int)
    (c : Configuration) : Prop
  | mk {d : Configuration} {s : Statement} (hpath : ReflTransGen E.Steps start d)
      (hpos : d.pos = p) (hs : d.activation.current? = some s) (hform : s.form = .loop)
      (hnone : d.counter? p = none)
      (hcount : Activation.loopCount (d.activation.memory d.world) s = .ok count)
      (hsince : ReflTransGen (E.StepsCounting p count) d c)

theorem Steps.pos_lt (h : E.Steps c c') : c.pos < c.activation.function.size := by
  cases h with
  | next hs hstep => exact (List.getElem?_eq_some_iff.1 hs).1

theorem function_of_path (h : ReflTransGen E.Steps start c) :
    c.activation.function = start.activation.function := by
  induction h with
  | refl => rfl
  | tail _ hstep ih => exact hstep.function_eq.trans ih

/-- The forms of a function pair up by its `loopIndex`. -/
theorem matching_of_loopIndex {f : Function} (h : f.loopIndex = .ok index) :
    Matching (f.body.map (·.form)) index := by
  obtain ⟨b, hb⟩ := Block.balanced_iff_parse?.1 (Block.balanced_iff_loopIndex.2 ⟨index, h⟩)
  cases h.symm.trans (Block.loopIndex_of_parse? hb)
  exact Block.matching_of_parse? hb

theorem counter?_of_begins (h : start.Begins) (p : Nat) : start.counter? p = none := by
  obtain ⟨f, args, hstart⟩ := h
  rw [Configuration.counter?, hstart]
  rfl

theorem Entered.step {p : Nat} {count : Int} (h : E.Entered start p count c)
    (hstep : E.StepsCounting p count c c') : E.Entered start p count c' := by
  obtain ⟨hpath, hpos, hs, hform, hnone, hcount, hsince⟩ := h
  exact ⟨hpath, hpos, hs, hform, hnone, hcount, hsince.tail hstep⟩

section Path

variable (hstart : start.Begins) (hindex : start.activation.function.loopIndex = .ok index)

include hstart hindex

/-- A call that has come somewhere is `Aligned`, and stands where a loop opens that has a
counter only if it `Reenters` that loop. -/
theorem aligned_of_path (hpath : ReflTransGen E.Steps start c)
    (hlt : c.pos < c.activation.function.size) :
    Aligned index c ∧ (∀ k, c.counter? c.pos = some k → E.Reenters index start c) := by
  have hnone := counter?_of_begins hstart
  induction hpath with
  | refl =>
      refine ⟨CountsAround.aligned fun p => ?_, fun k hk => ?_⟩
      · obtain ⟨f, args, hfirst⟩ := hstart
        have hpos : start.pos = 0 := by rw [Configuration.pos, hfirst]; rfl
        rw [hnone, hpos]
        refine iff_of_false (by simp) ?_
        intro hsurrounds
        obtain ⟨-, q, -, hlow, -⟩ := hsurrounds
        omega
      · rw [hnone] at hk
        cases hk
  | @tail d c hpath hstep ih =>
      have hd := (ih hstep.pos_lt).1
      have hindexd : d.activation.function.loopIndex = .ok index := by
        rw [function_of_path hpath, hindex]
      have hforms : c.forms = d.forms := by rw [Configuration.forms, hstep.function_eq]
      have hm := matching_of_loopIndex hindexd
      rcases aligned_of_steps hm hindexd hd hstep hlt with haround | ⟨haligned, henc⟩
      · refine ⟨haround.aligned, fun k hk => ?_⟩
        exact absurd ((haround c.pos).1 ⟨k, hk⟩) (index.not_surrounds_self _ _)
      · refine ⟨haligned, fun k _ => ⟨d, hpath, hstep, ?_, (hm.pairs _ _).2 (.inl henc)⟩⟩
        rw [hforms]
        exact henc.opens

/-- A loop that a call `Reenters` has a counter. -/
theorem Reenters.exists_counter (h : E.Reenters index start c) :
    ∃ k, c.counter? c.pos = some k := by
  obtain ⟨d, hpath, hstep, hopen, hpartner⟩ := h
  have hindexd : d.activation.function.loopIndex = .ok index := by
    rw [function_of_path hpath, hindex]
  have hforms : c.forms = d.forms := by rw [Configuration.forms, hstep.function_eq]
  rw [hforms] at hopen
  have hm := matching_of_loopIndex hindexd
  obtain ⟨q, hq, henc⟩ := hm.loop c.pos hopen
  cases hpartner.symm.trans hq
  have hne : c.pos ≠ d.pos := Nat.ne_of_lt henc.lt
  have haligned := (aligned_of_path hstart hindex hpath hstep.pos_lt).1
  obtain ⟨k, hk⟩ := (haligned.others c.pos hne).2
    (hm.surrounds_iff.2 ⟨d.pos, henc, henc.lt, Nat.le_refl _⟩)
  exact ⟨k, (hstep.lookup_eq hne).trans hk⟩

/-- **Which loops have a counter**: those that `Surrounds` finds around the position of a call,
and the one to whose opening statement it has just come back (`Reenters`). -/
theorem counter_iff_of_path (hpath : ReflTransGen E.Steps start c)
    (hlt : c.pos < c.activation.function.size) (p : Nat) :
    (∃ k, c.counter? p = some k) ↔
      index.Surrounds c.forms p c.pos ∨ p = c.pos ∧ E.Reenters index start c := by
  obtain ⟨haligned, hreenters⟩ := aligned_of_path hstart hindex hpath hlt
  by_cases hp : p = c.pos
  · rw [hp, or_iff_right (index.not_surrounds_self _ _)]
    constructor
    · intro h
      obtain ⟨k, hk⟩ := h
      exact ⟨rfl, hreenters k hk⟩
    · intro h
      exact Reenters.exists_counter hstart hindex h.2
  · rw [haligned.others p hp]
    simp [hp]

/-! ### What a counter holds -/

/-- Wherever a call comes to, its counters are `InRange`. -/
theorem inRange_of_path (hpath : ReflTransGen E.Steps start c) {p : Nat} {k : Counter}
    (hk : c.counter? p = some k) : k.InRange := by
  induction hpath generalizing p k with
  | refl =>
      rw [counter?_of_begins hstart] at hk
      cases hk
  | tail hpath hstep ih =>
      rw [← function_of_path hpath] at hindex
      obtain ⟨s, -, hmoves⟩ := moves_of_steps hindex hstep
      rcases hmoves.counter_cases hk with hold | ⟨i, hold, hstarted, hlt⟩ |
        ⟨-, -, -, -, hw, hstarted, hlt⟩
      · exact ih hold
      · have hrange := ih hold
        have hpos : 1 ≤ i := hrange.pos
        exact ⟨by omega, by omega, hrange.writable⟩
      · exact ⟨by omega, by omega, hw⟩

/-- Wherever a call comes to, the loops with a counter have been `Entered` with the count of
that counter. -/
theorem entered_of_path (hpath : ReflTransGen E.Steps start c) {p : Nat} {k : Counter}
    (hk : c.counter? p = some k) : E.Entered start p k.count c := by
  induction hpath generalizing p k with
  | refl =>
      rw [counter?_of_begins hstart] at hk
      cases hk
  | @tail d c hpath hstep ih =>
      rw [← function_of_path hpath] at hindex
      obtain ⟨s, hs, hmoves⟩ := moves_of_steps hindex hstep
      have hcounts : E.StepsCounting p k.count d c := ⟨hstep, k.started, hk⟩
      rcases hmoves.counter_cases hk with hold | ⟨i, hold, -, -⟩ | ⟨hp, hform, hnone, hcount, -⟩
      · exact (ih hold).step hcounts
      · exact (ih hold).step hcounts
      · exact ⟨hpath, hp.symm, hs, hform, hnone, hcount, .single hcounts⟩

end Path

/-- A call goes on at a statement of its function, or right behind the last one, which is at
`size`. -/
theorem pos_le_of_steps (hindex : c.activation.function.loopIndex = .ok index)
    (hstep : E.Steps c c') : c'.pos ≤ c.activation.function.size := by
  have hm := matching_of_loopIndex hindex
  have hlt := hstep.pos_lt
  obtain ⟨s, hs, hmoves⟩ := moves_of_steps hindex hstep
  have hform := Configuration.form_of_current? hs
  -- where a loop closes there is a statement
  have hstop : s.form = .loop → index.partner c.pos < c.activation.function.size := by
    intro hloop
    obtain ⟨q, hq, henc⟩ := hm.loop c.pos (hloop ▸ hform)
    rw [LoopIndex.partner_of_partner? hq]
    simpa [Function.size] using (List.getElem?_eq_some_iff.1 henc.closes).1
  have hpasses : ∀ {k : Counter}, s.form = .loop →
      c'.activation = c.activation.pass index k → c'.pos ≤ c.activation.function.size := by
    intro k hloop hpass
    obtain ⟨i, n⟩ := k
    have hstop := hstop hloop
    rw [Configuration.pos, hpass]
    by_cases hpass : i < n
    · rw [Activation.pos_pass_of_lt hpass]
      exact hlt
    · rw [Activation.pos_pass_of_le (by omega)]
      exact hstop
  cases hmoves with
  | advances _ hpos _ => omega
  | returns _ hpos _ => omega
  | closes hclose hpos _ =>
      obtain ⟨r, henc⟩ := hm.exists_start (hclose ▸ hform)
      have hback := henc.lt
      rw [hpos, LoopIndex.partner_of_partner? ((hm.pairs _ _).2 (.inr henc))]
      omega
  | again hloop _ hpass => exact hpasses hloop hpass
  | enters hloop _ _ _ hpass => exact hpasses hloop hpass
  | skips hloop _ hpos _ =>
      have hstop := hstop hloop
      omega

end Engine

end BusScript
