import BusScript.Program

/-!
# Blocks

The body of a function is a flat list in which loops are bracketed by
statements. A `Block` is the same body with its loops **nested**: what a
statement that opens a loop has up to the statement that closes it is a block
of its own. Blocks carry the form of their statements in the type, so every
block is bracketed and `Block.statements` loses nothing:

* `parse?_eq_some_iff` — reading a list of statements inverts `statements`;
* `balanced_iff_parse?` — a list is read exactly if its forms are `Balanced`;
* `loopIndex_of_parse?`, `loopIndex_of_parse?_none` — a function has a loop
  index exactly if its body is read, and then the index holds the pairs of
  the block;
* `partner_of_mem_pairs` — the index leads from either end of a loop to the
  other one.
-/

namespace BusScript

/-- Whether a form opens or closes a loop: `loop` and `endLoop` do. -/
def Form.isBracket : Form → Bool
  | .loop | .endLoop => true
  | _ => false

theorem Form.isBracket_eq_false {form : Form} (ho : form ≠ .loop) (hc : form ≠ .endLoop) :
    form.isBracket = false := by
  cases form with
  | loop => exact absurd rfl ho
  | endLoop => exact absurd rfl hc
  | _ => rfl

/-- Lists of forms in which those that open loops and those that close them pair up, as a
grammar. -/
inductive Balanced : List Form → Prop
  | nil : Balanced []
  | plain {form : Form} {forms : List Form} :
      form.isBracket = false → Balanced forms → Balanced (form :: forms)
  | loop {body rest : List Form} :
      Balanced body → Balanced rest → Balanced (.loop :: (body ++ .endLoop :: rest))

/-- A list of statements with its loops nested. Its proof fields keep brackets where they
belong. -/
inductive Block where
  /-- No statement. -/
  | done
  /-- A statement that is no bracket, and the block `rest` behind it. -/
  | plain (s : Statement) (isPlain : s.form.isBracket = false) (rest : Block)
  /-- A loop: the statement that opens it, its `body` and the statement that closes it. -/
  | loop (s : Statement) (opens : s.form = .loop) (body : Block)
      (close : Statement) (closes : close.form = .endLoop) (rest : Block)

namespace Block

/-- The flat list of statements of a block, brackets included. -/
def statements : Block → List Statement
  | .done => []
  | .plain s _ rest => s :: rest.statements
  | .loop s _ body close _ rest => s :: (body.statements ++ close :: rest.statements)

/-- The number of `statements` of a block. -/
def size (b : Block) : Nat := b.statements.length

@[simp] theorem size_plain (s : Statement) (hs : s.form.isBracket = false) (rest : Block) :
    size (.plain s hs rest) = rest.size + 1 := rfl

@[simp] theorem size_loop (s : Statement) (hs : s.form = .loop) (body : Block)
    (close : Statement) (hc : close.form = .endLoop) (rest : Block) :
    size (.loop s hs body close hc rest) = body.size + rest.size + 2 := by
  simp only [size, statements, List.length_cons, List.length_append]
  omega

/-! ### Reading a list of statements -/

/-- What follows a block whose loop was opened before it: the statement `close` that closes the
loop, and the block behind it. -/
structure Tail where
  close : Statement
  closes : close.form = .endLoop
  rest : Block

/-- The statements of a tail, its `close` first. -/
def Tail.statements (t : Tail) : List Statement := t.close :: t.rest.statements

/-- Read a list from its end: the block at its front, and one `Tail` for each loop that is open
before the list. A loop that is never closed has no reading. -/
def read : List Statement → Option (Block × List Tail)
  | [] => some (.done, [])
  | s :: ss =>
    match read ss with
    | none => none
    | some (b, tails) =>
      if ho : s.form = .loop then
        match tails with
        | [] => none
        | t :: tails => some (.loop s ho b t.close t.closes t.rest, tails)
      else if hc : s.form = .endLoop then some (.done, ⟨s, hc, b⟩ :: tails)
      else some (.plain s (Form.isBracket_eq_false ho hc) b, tails)

/-- The block of a list of statements whose loops pair up: what `read` gives if no loop is open
before the list. -/
def parse? (ss : List Statement) : Option Block :=
  match read ss with
  | some (b, []) => some b
  | _ => none

/-- A statement that opens a loop takes the block read so far as its body, up to the first
`Tail`. -/
theorem read_cons_loop {s : Statement} {ss : List Statement} {b : Block} {t : Tail}
    {tails : List Tail} (hs : s.form = .loop) (h : read ss = some (b, t :: tails)) :
    read (s :: ss) = some (.loop s hs b t.close t.closes t.rest, tails) := by
  simp only [read, h, hs, dite_true]

/-- A statement that closes a loop turns the block read so far into a `Tail`. -/
theorem read_cons_endLoop {s : Statement} {ss : List Statement} {b : Block} {tails : List Tail}
    (hs : s.form = .endLoop) (h : read ss = some (b, tails)) :
    read (s :: ss) = some (.done, ⟨s, hs, b⟩ :: tails) := by
  have hl : s.form ≠ .loop := by simp [hs]
  rw [read, h]
  simp only [dif_neg hl, dif_pos hs]

theorem read_cons_plain {s : Statement} {ss : List Statement} {b : Block} {tails : List Tail}
    (hs : s.form.isBracket = false) (h : read ss = some (b, tails)) :
    read (s :: ss) = some (.plain s hs b, tails) := by
  have hl : s.form ≠ .loop := by
    intro e
    simp [e, Form.isBracket] at hs
  have he : s.form ≠ .endLoop := by
    intro e
    simp [e, Form.isBracket] at hs
  simp only [read, h, hl, he, dite_false]

/-- A block is read off its own `statements`, whatever follows it: the end of the list or the
end of a loop around it. -/
theorem read_statements_append (b : Block) {ss : List Statement} {tails : List Tail}
    (h : read ss = some (.done, tails)) : read (b.statements ++ ss) = some (b, tails) := by
  induction b generalizing ss tails with
  | done => exact h
  | plain s hs rest ih => exact read_cons_plain hs (ih h)
  | loop s hs body close hc rest ihb ihr =>
      have hrest := read_cons_endLoop hc (ihr h)
      have hbody := ihb hrest
      rw [statements, List.cons_append, List.append_assoc, List.cons_append]
      exact read_cons_loop hs hbody

/-- What `read` gives has every statement of the list, in their order. -/
theorem eq_append_of_read {ss : List Statement} {b : Block} {tails : List Tail}
    (h : read ss = some (b, tails)) : ss = b.statements ++ tails.flatMap Tail.statements := by
  induction ss generalizing b tails with
  | nil =>
      simp only [read, Option.some.injEq, Prod.mk.injEq] at h
      obtain ⟨rfl, rfl⟩ := h
      rfl
  | cons s ss ih =>
      cases hr : read ss with
      | none => simp [read, hr] at h
      | some r =>
          obtain ⟨b', tails'⟩ := r
          have hss := ih hr
          simp only [read, hr] at h
          split at h
          · -- the loop that opens here takes the innermost tail
            cases tails' with
            | nil => simp at h
            | cons t tails' =>
                simp only [Option.some.injEq, Prod.mk.injEq] at h
                obtain ⟨rfl, rfl⟩ := h
                simp [hss, statements, Tail.statements]
          · split at h <;>
            · simp only [Option.some.injEq, Prod.mk.injEq] at h
              obtain ⟨rfl, rfl⟩ := h
              simp [hss, statements, Tail.statements]

/-- Reading a list of statements with `parse?` inverts `statements`. -/
theorem parse?_eq_some_iff {ss : List Statement} {b : Block} :
    parse? ss = some b ↔ b.statements = ss := by
  constructor
  · intro h
    unfold parse? at h
    split at h
    · rename_i b' hr
      cases h
      simpa using (eq_append_of_read hr).symm
    · simp at h
  · rintro rfl
    have h : read (b.statements ++ []) = some (b, []) := read_statements_append b rfl
    rw [List.append_nil] at h
    simp only [parse?, h]

/-- The forms of a block are `Balanced`. -/
theorem balanced_statements (b : Block) : Balanced (b.statements.map (·.form)) := by
  induction b with
  | done => exact .nil
  | plain s hs rest ih => exact .plain hs ih
  | loop s hs body close hc rest ihb ihr =>
      simp only [statements, List.map_cons, List.map_append, hs, hc]
      exact .loop ihb ihr

/-- Whatever is `Balanced` is the list of forms of a block: by induction on the grammar. -/
theorem exists_block_of_balanced {forms : List Form} (h : Balanced forms) :
    ∀ {ss : List Statement}, ss.map (·.form) = forms → ∃ b : Block, b.statements = ss := by
  induction h with
  | nil =>
      intro ss hss
      exact ⟨.done, (List.map_eq_nil_iff.1 hss).symm⟩
  | plain hf _ ih =>
      intro ss hss
      obtain ⟨s, ss, rfl, rfl, hrest⟩ := List.map_eq_cons_iff.1 hss
      obtain ⟨b, rfl⟩ := ih hrest
      exact ⟨.plain s hf b, rfl⟩
  | loop _ _ ihb ihr =>
      intro ss hss
      obtain ⟨s, inner, rfl, hs, hinner⟩ := List.map_eq_cons_iff.1 hss
      obtain ⟨body, outer, rfl, hbody, houter⟩ := List.map_eq_append_iff.1 hinner
      obtain ⟨close, rest, rfl, hc, hrest⟩ := List.map_eq_cons_iff.1 houter
      obtain ⟨b, rfl⟩ := ihb hbody
      obtain ⟨r, rfl⟩ := ihr hrest
      exact ⟨.loop s hs b close hc r, rfl⟩

/-- A list of statements is read by `parse?` exactly if its forms are `Balanced`. -/
theorem balanced_iff_parse? {ss : List Statement} :
    Balanced (ss.map (·.form)) ↔ ∃ b, parse? ss = some b := by
  constructor
  · intro h
    obtain ⟨b, hb⟩ := exists_block_of_balanced h rfl
    exact ⟨b, parse?_eq_some_iff.2 hb⟩
  · intro h
    rcases h with ⟨b, hb⟩
    rw [← parse?_eq_some_iff.1 hb]
    exact balanced_statements b

/-! ### The loop index of a block -/

/-- The positions at which the loops of a block open and close, if its first statement stands at
`pos`: the loop that closes last comes first, as in `LoopIndex.scan`. -/
def pairs (pos : Nat) : Block → List (Nat × Nat)
  | .done => []
  | .plain _ _ rest => rest.pairs (pos + 1)
  | .loop _ _ body _ _ rest =>
      rest.pairs (pos + body.size + 2) ++
        (pos, pos + body.size + 1) :: body.pairs (pos + 1)

theorem scan_cons_plain {form : Form} (h : form.isBracket = false) (name : String) (pos : Nat)
    (opened : List Nat) (found : List (Nat × Nat)) (forms : List Form) :
    LoopIndex.scan name pos opened found (form :: forms) =
      LoopIndex.scan name (pos + 1) opened found forms := by
  cases form with
  | loop => simp [Form.isBracket] at h
  | endLoop => simp [Form.isBracket] at h
  | _ => rfl

/-- Scanning a block finds its `pairs` and leaves the loops `opened` before as they were. -/
theorem scan_statements (b : Block) (name : String) (pos : Nat) (opened : List Nat)
    (found : List (Nat × Nat)) (forms : List Form) :
    LoopIndex.scan name pos opened found (b.statements.map (·.form) ++ forms) =
      LoopIndex.scan name (pos + b.size) opened (b.pairs pos ++ found) forms := by
  induction b generalizing pos opened found forms with
  | done => rfl
  | plain s hs rest ih =>
      rw [statements, List.map_cons, List.cons_append, scan_cons_plain hs, ih, size_plain, pairs]
      congr 1
      omega
  | loop s hs body close hc rest ihb ihr =>
      rw [statements, List.map_cons, List.map_append, List.map_cons, hs, hc, List.cons_append,
        List.append_assoc, List.cons_append, LoopIndex.scan, ihb, LoopIndex.scan, ihr, size_loop,
        pairs, List.append_assoc, List.cons_append, Nat.add_right_comm pos 1]
      congr 1
      omega

/-- The loop index of a function whose body is a block has the `pairs` of that block. -/
theorem loopIndex_of_parse? {f : Function} {b : Block} (h : parse? f.body = some b) :
    f.loopIndex = .ok ⟨b.pairs 0⟩ := by
  have hscan := scan_statements b f.name 0 [] [] []
  rw [f.loopIndex_eq_ofBody, LoopIndex.ofBody, LoopIndex.ofForms, ← parse?_eq_some_iff.1 h]
  simpa [LoopIndex.scan] using hscan

/-- A list that `LoopIndex.scan` goes through without a fault is read, with one tail for each
loop that was open. -/
theorem read_of_scan {name : String} {ss : List Statement} {pos : Nat} {opened : List Nat}
    {found : List (Nat × Nat)} {index : LoopIndex}
    (h : LoopIndex.scan name pos opened found (ss.map (·.form)) = .ok index) :
    ∃ b tails, read ss = some (b, tails) ∧ tails.length = opened.length := by
  -- the scan goes from left to right and reading from right to left, so the
  -- loops that are open in front are those whose ends are still to come
  induction ss generalizing pos opened found with
  | nil =>
      cases opened with
      | nil => exact ⟨.done, [], rfl, rfl⟩
      | cons start opened => simp [LoopIndex.scan] at h
  | cons s ss ih =>
      rw [List.map_cons] at h
      by_cases ho : s.form = .loop
      · rw [ho, LoopIndex.scan] at h
        obtain ⟨b, tails, hr, hlen⟩ := ih h
        cases tails with
        | nil => simp at hlen
        | cons t tails =>
            exact ⟨_, tails, read_cons_loop ho hr, by simpa using hlen⟩
      · by_cases hc : s.form = .endLoop
        · rw [hc] at h
          cases opened with
          | nil => simp [LoopIndex.scan] at h
          | cons start opened =>
              rw [LoopIndex.scan] at h
              obtain ⟨b, tails, hr, hlen⟩ := ih h
              exact ⟨_, _, read_cons_endLoop hc hr, by simp [hlen]⟩
        · have hp := Form.isBracket_eq_false ho hc
          rw [scan_cons_plain hp] at h
          obtain ⟨b, tails, hr, hlen⟩ := ih h
          exact ⟨_, tails, read_cons_plain hp hr, hlen⟩

/-- A body that `parse?` does not read has no loop index. -/
theorem loopIndex_of_parse?_none {f : Function} (h : parse? f.body = none) :
    ∃ e, f.loopIndex = .error e := by
  cases hi : f.loopIndex with
  | error e => exact ⟨e, rfl⟩
  | ok index =>
      rw [f.loopIndex_eq_ofBody, LoopIndex.ofBody, LoopIndex.ofForms] at hi
      obtain ⟨b, tails, hr, hlen⟩ := read_of_scan hi
      rw [List.length_nil, List.length_eq_zero_iff] at hlen
      simp [parse?, hr, hlen] at h

/-- A function has a loop index exactly if the forms of its body are `Balanced`. -/
theorem balanced_iff_loopIndex {f : Function} :
    Balanced (f.body.map (·.form)) ↔ ∃ index, f.loopIndex = .ok index := by
  rw [balanced_iff_parse?]
  cases hb : parse? f.body with
  | none =>
      obtain ⟨e, he⟩ := loopIndex_of_parse?_none hb
      simp [he]
  | some b =>
      have hindex := loopIndex_of_parse? hb
      simp [hindex]

/-- In place of a loop index, a function whose forms are not `Balanced` has a fault. -/
theorem not_balanced_iff_loopIndex {f : Function} :
    ¬ Balanced (f.body.map (·.form)) ↔ ∃ e, f.loopIndex = .error e := by
  rw [balanced_iff_loopIndex]
  cases f.loopIndex <;> simp

/-- Loops open before they close, and both within the block. -/
theorem bounds_of_mem_pairs {b : Block} {pos p q : Nat} (h : (p, q) ∈ b.pairs pos) :
    pos ≤ p ∧ p < q ∧ q < pos + b.size := by
  induction b generalizing pos with
  | done => simp [pairs] at h
  | plain s hs rest ih =>
      have hb := ih h
      rw [size_plain]
      omega
  | loop s hs body close hc rest ihb ihr =>
      rw [size_loop]
      rcases List.mem_append.1 h with h | h
      · have hb := ihr h
        omega
      · rcases List.mem_cons.1 h with h | h
        · simp only [Prod.mk.injEq] at h
          omega
        · have hb := ihb h
          omega

/-- The other end of the loop with these two ends, if `x` is one of them. -/
def mate (x : Nat) : Nat × Nat → Option Nat
  | (start, stop) => if start = x then some stop else if stop = x then some start else none

theorem partner?_eq (index : LoopIndex) (x : Nat) :
    index.partner? x = index.pairs.findSome? (mate x) := rfl

theorem findSome?_mate_eq_none {b : Block} {pos x : Nat} (h : x < pos ∨ pos + b.size ≤ x) :
    (b.pairs pos).findSome? (mate x) = none := by
  rw [List.findSome?_eq_none_iff]
  rintro ⟨p, q⟩ hpq
  have hb := bounds_of_mem_pairs hpq
  have hp : p ≠ x := by omega
  have hq : q ≠ x := by omega
  simp [mate, hp, hq]

/-- Each end of a loop finds the other one among the `pairs`, since no position is an end of two
loops. -/
theorem findSome?_mate {b : Block} {pos p q : Nat} (h : (p, q) ∈ b.pairs pos) :
    (b.pairs pos).findSome? (mate p) = some q ∧ (b.pairs pos).findSome? (mate q) = some p := by
  induction b generalizing pos with
  | done => simp [pairs] at h
  | plain s hs rest ih => exact ih h
  | loop s hs body close hc rest ihb ihr =>
      rw [pairs, List.findSome?_append, List.findSome?_append]
      rcases List.mem_append.1 h with h | h
      · simp [ihr h]
      · -- The pair is not in `rest`, which begins behind both of its ends.
        have hlt : p < q ∧ q < pos + body.size + 2 := by
          rcases List.mem_cons.1 h with h | h
          · simp only [Prod.mk.injEq] at h
            omega
          · have hb := bounds_of_mem_pairs h
            omega
        rw [findSome?_mate_eq_none (b := rest) (.inl (by omega)),
          findSome?_mate_eq_none (b := rest) (.inl hlt.2), Option.none_or, Option.none_or,
          List.findSome?_cons, List.findSome?_cons]
        rcases List.mem_cons.1 h with h | h
        · simp only [Prod.mk.injEq] at h
          obtain ⟨rfl, rfl⟩ := h
          have hne : p ≠ p + body.size + 1 := by omega
          simp only [mate, if_pos, if_neg hne, and_self]
        · have hb := bounds_of_mem_pairs h
          have hp : mate p (pos, pos + body.size + 1) = none := by
            simp only [mate]
            rw [if_neg (by omega), if_neg (by omega)]
          have hq : mate q (pos, pos + body.size + 1) = none := by
            simp only [mate]
            rw [if_neg (by omega), if_neg (by omega)]
          simpa only [hp, hq] using ihb h

/-- The index with the `pairs` of a block leads from either end of a loop to the other one. -/
theorem partner_of_mem_pairs {b : Block} {pos p q : Nat} (h : (p, q) ∈ b.pairs pos) :
    (LoopIndex.mk (b.pairs pos)).partner p = q ∧ (LoopIndex.mk (b.pairs pos)).partner q = p := by
  obtain ⟨hp, hq⟩ := findSome?_mate h
  constructor
  · rw [LoopIndex.partner, partner?_eq, hp, Option.getD_some]
  · rw [LoopIndex.partner, partner?_eq, hq, Option.getD_some]

/-! ### The statements before the first loop -/

/-- The statements in front of the first bracket (`Form.isBracket`), as a block. -/
def leading : List Statement → Block
  | [] => .done
  | s :: ss => if h : s.form.isBracket = false then .plain s h (leading ss) else .done

theorem pairs_leading (ss : List Statement) (pos : Nat) : (leading ss).pairs pos = [] := by
  induction ss generalizing pos with
  | nil => rfl
  | cons s ss ih =>
      unfold leading
      split
      · exact ih (pos + 1)
      · rfl

/-- The `leading` statements are all there are, or a bracket follows them. -/
theorem eq_leading_append (ss : List Statement) :
    ∃ after, ss = (leading ss).statements ++ after ∧
      (after = [] ∨ ∃ s rest, after = s :: rest ∧ s.form.isBracket = true) := by
  induction ss with
  | nil => exact ⟨[], rfl, .inl rfl⟩
  | cons s ss ih =>
      obtain ⟨after, hss, hafter⟩ := ih
      by_cases h : s.form.isBracket = false
      · refine ⟨after, ?_, hafter⟩
        rw [leading, dif_pos h, statements, List.cons_append, ← hss]
      · refine ⟨s :: ss, ?_, .inr ⟨s, ss, rfl, by simpa using h⟩⟩
        rw [leading, dif_neg h]
        rfl

/-- In a list that `parse?` does not read, a bracket follows the `leading` statements. -/
theorem bracket_of_parse?_none {ss : List Statement} (h : parse? ss = none) :
    ∃ s, ss[(leading ss).size]? = some s ∧ s.form.isBracket = true := by
  obtain ⟨after, hss, rfl | ⟨s, rest, rfl, hs⟩⟩ := eq_leading_append ss
  · rw [List.append_nil] at hss
    rw [parse?_eq_some_iff.2 hss.symm] at h
    cases h
  · have hget : ((leading ss).statements ++ s :: rest)[(leading ss).size]? = some s := by
      rw [size, List.getElem?_append_right (Nat.le_refl _), Nat.sub_self]
      rfl
    rw [← hss] at hget
    exact ⟨s, hget, hs⟩

/-! ### Blocks in a function -/

/-- The block `b` stands in the function `f` at `pos`: its statements are found there, and the
loop index leads from either end of its loops to the other. -/
structure Placed (f : Function) (pos : Nat) (b : Block) : Prop where
  code : ∃ before after, f.body = before ++ (b.statements ++ after) ∧ before.length = pos
  jumps : ∀ p q, (p, q) ∈ b.pairs pos →
    ∃ index, f.loopIndex = .ok index ∧ index.partner p = q ∧ index.partner q = p

/-- The block of a function's body stands at its beginning. -/
theorem placed_of_parse? {f : Function} {b : Block} (h : parse? f.body = some b) :
    Placed f 0 b where
  code := ⟨[], [], by simpa using (parse?_eq_some_iff.1 h).symm, rfl⟩
  jumps _ _ hpq := ⟨_, loopIndex_of_parse? h, partner_of_mem_pairs hpq⟩

theorem placed_leading (f : Function) : Placed f 0 (leading f.body) where
  code := by
    obtain ⟨after, hbody, -⟩ := eq_leading_append f.body
    exact ⟨[], after, hbody, rfl⟩
  jumps p q hpq := by
    rw [pairs_leading] at hpq
    cases hpq

namespace Placed

variable {f : Function} {pos : Nat}

theorem plain_current {s : Statement} {hs : s.form.isBracket = false} {rest : Block}
    (h : Placed f pos (.plain s hs rest)) : f.body[pos]? = some s := by
  obtain ⟨before, after, hbody, rfl⟩ := h.code
  rw [hbody, List.getElem?_append_right (Nat.le_refl _), Nat.sub_self]
  rfl

theorem plain_rest {s : Statement} {hs : s.form.isBracket = false} {rest : Block}
    (h : Placed f pos (.plain s hs rest)) : Placed f (pos + 1) rest where
  code := by
    obtain ⟨before, after, hbody, rfl⟩ := h.code
    exact ⟨before ++ [s], after, by simp [hbody, statements], by simp⟩
  jumps := h.jumps

variable {s : Statement} {hs : s.form = .loop} {body : Block} {close : Statement}
  {hc : close.form = .endLoop} {rest : Block}

theorem loop_current (h : Placed f pos (.loop s hs body close hc rest)) :
    f.body[pos]? = some s := by
  obtain ⟨before, after, hbody, rfl⟩ := h.code
  rw [hbody, List.getElem?_append_right (Nat.le_refl _), Nat.sub_self]
  rfl

theorem loop_close (h : Placed f pos (.loop s hs body close hc rest)) :
    f.body[pos + body.size + 1]? = some close := by
  obtain ⟨before, after, hbody, rfl⟩ := h.code
  have hsplit : f.body =
      (before ++ s :: body.statements) ++ close :: (rest.statements ++ after) := by
    simp [hbody, statements]
  have hlen : (before ++ s :: body.statements).length = before.length + body.size + 1 := by
    simp only [List.length_append, List.length_cons, size]
    omega
  rw [hsplit, List.getElem?_append_right (by omega), hlen, Nat.sub_self]
  rfl

/-- The body of a loop that is `Placed` stands behind the statement that opens the loop. -/
theorem loop_body (h : Placed f pos (.loop s hs body close hc rest)) :
    Placed f (pos + 1) body where
  code := by
    obtain ⟨before, after, hbody, rfl⟩ := h.code
    exact ⟨before ++ [s], close :: (rest.statements ++ after),
      by simp [hbody, statements], by simp⟩
  jumps p q hpq := h.jumps p q (List.mem_append_right _ (List.mem_cons_of_mem _ hpq))

/-- What follows a loop that is `Placed` stands behind the statement that closes the loop. -/
theorem loop_rest (h : Placed f pos (.loop s hs body close hc rest)) :
    Placed f (pos + body.size + 2) rest where
  code := by
    obtain ⟨before, after, hbody, rfl⟩ := h.code
    refine ⟨before ++ s :: (body.statements ++ [close]), after, by simp [hbody, statements], ?_⟩
    simp only [List.length_append, List.length_cons, List.length_nil, size]
    omega
  jumps p q hpq := h.jumps p q (List.mem_append_left _ hpq)

/-- The index of the function leads from the opening statement of a `Placed` loop to the closing
one, and back. -/
theorem loop_jumps (h : Placed f pos (.loop s hs body close hc rest)) :
    ∃ index, f.loopIndex = .ok index ∧ index.partner pos = pos + body.size + 1 ∧
      index.partner (pos + body.size + 1) = pos :=
  h.jumps _ _ (List.mem_append_right _ List.mem_cons_self)

end Placed

end Block

end BusScript
