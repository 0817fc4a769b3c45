import BusScript.Proofs.Block

/-!
# The pairing of loops

The loop index is built in one pass with a stack. This module compares it with
the grammar of lists in which loops pair up (`Balanced`), and with a plain
description of the pairs: a loop that opens at `p` closes at `q` if the forms
strictly between them pair up among themselves (`Encloses`).

* Where there is an index, it holds exactly these pairs (`Matching`). They
  exclude one another by counting: no front part of a balanced list closes more
  loops than it opens (`Balanced.height_nonneg`).
* Where there is none, the stack says why (`Unpairs`). The scan has come to a
  closing form with nothing open, behind a balanced part; or to the end, with an
  innermost loop still open, in front of a balanced part. The loops that are
  open behind a part of the list are its `Opened` positions, the invariant of
  the scan.

`ofBody_matching` puts both together.
-/

namespace BusScript

/-- The forms among `forms` that open or close loops. -/
def brackets (forms : List Form) : List Form := forms.filter Form.isBracket

/-! ### Forms that open no loop -/

/-- A front part `l` of a loop and what follows is empty, or ends in the body, or ends behind
the loop. -/
theorem loop_eq_append {body rest l r : List Form}
    (h : .loop :: (body ++ .endLoop :: rest) = l ++ r) :
    (l = [] ∧ r = .loop :: (body ++ .endLoop :: rest)) ∨
    (∃ l' r', l = .loop :: l' ∧ body = l' ++ r' ∧ r = r' ++ .endLoop :: rest) ∨
    ∃ l', l = .loop :: (body ++ .endLoop :: l') ∧ rest = l' ++ r := by
  rcases List.cons_eq_append_iff.1 h with ⟨hl, hr⟩ | ⟨l', rfl, hinner⟩
  · exact .inl ⟨hl, hr⟩
  · rcases List.append_eq_append_iff.1 hinner with ⟨as, rfl, has⟩ | ⟨bs, hbody, hr⟩
    · rcases List.cons_eq_append_iff.1 has with ⟨rfl, rfl⟩ | ⟨as', rfl, hrest⟩
      · exact .inr (.inl ⟨body, [], by simp, by simp, by simp⟩)
      · exact .inr (.inr ⟨as', rfl, hrest⟩)
    · exact .inr (.inl ⟨l', bs, rfl, hbody, hr⟩)

namespace Balanced

theorem append {l r : List Form} (hl : Balanced l) (hr : Balanced r) : Balanced (l ++ r) := by
  induction hl with
  | nil => exact hr
  | plain hform _ ih => exact .plain hform ih
  | loop hbody _ _ ihr =>
      rw [List.cons_append, List.append_assoc, List.cons_append]
      exact .loop hbody ihr

/-- Forms that are no brackets may stand anywhere in a `Balanced` list. -/
theorem insert {form : Form} (hform : form.isBracket = false) {l r : List Form}
    (h : Balanced (l ++ r)) : Balanced (l ++ form :: r) := by
  generalize hforms : l ++ r = forms at h
  induction h generalizing l r with
  | nil =>
      obtain ⟨rfl, rfl⟩ := List.append_eq_nil_iff.1 hforms
      exact .plain hform .nil
  | plain hplain hrest ih =>
      rcases List.cons_eq_append_iff.1 hforms.symm with ⟨rfl, rfl⟩ | ⟨l', rfl, hl'⟩
      · exact .plain hform (.plain hplain hrest)
      · exact .plain hplain (ih hl'.symm)
  | loop hbody hrest ihb ihr =>
      rcases loop_eq_append hforms.symm with
        ⟨rfl, rfl⟩ | ⟨l', r', rfl, hl', rfl⟩ | ⟨l', rfl, hl'⟩
      · exact .plain hform (.loop hbody hrest)
      · have hinner := Balanced.loop (ihb hl'.symm) hrest
        rwa [List.append_assoc] at hinner
      · have houter := Balanced.loop hbody (ihr hl'.symm)
        simpa using houter

theorem of_brackets {l r : List Form} (h : Balanced (l ++ brackets r)) : Balanced (l ++ r) := by
  induction r generalizing l with
  | nil => exact h
  | cons form r ih =>
      cases hform : form.isBracket with
      | true =>
          have hcons : brackets (form :: r) = form :: brackets r := List.filter_cons_of_pos hform
          rw [hcons, List.append_cons] at h
          rw [List.append_cons]
          exact ih h
      | false =>
          have hcons : brackets (form :: r) = brackets r :=
            List.filter_cons_of_neg (by simp [hform])
          rw [hcons] at h
          exact insert hform (ih h)

end Balanced

/-- Whether loops pair up depends on nothing but the `brackets`. -/
theorem balanced_brackets_iff {forms : List Form} :
    Balanced (brackets forms) ↔ Balanced forms := by
  constructor
  · exact Balanced.of_brackets (l := [])
  · intro h
    induction h with
    | nil => exact .nil
    | plain hform _ ih => simpa [brackets, hform] using ih
    | @loop body rest _ _ ihb ihr =>
        have hcons : brackets (.loop :: (body ++ .endLoop :: rest)) =
            .loop :: (brackets body ++ .endLoop :: brackets rest) := by
          rw [brackets, List.filter_cons_of_pos rfl, List.filter_append,
            List.filter_cons_of_pos rfl, brackets, brackets]
        rw [hcons]
        exact .loop ihb ihr

/-! ### Counting -/

/-- How many more loops `forms` opens than it closes. -/
def height (forms : List Form) : Int := forms.count .loop - forms.count .endLoop

/-- More loops are closed by `endLoop` than are opened by `loop`. -/
def Overclosed (forms : List Form) : Prop := forms.count .loop < forms.count .endLoop

theorem overclosed_iff {forms : List Form} : Overclosed forms ↔ height forms < 0 := by
  unfold Overclosed height
  omega

@[simp] theorem height_nil : height [] = 0 := rfl

@[simp] theorem height_append (l r : List Form) : height (l ++ r) = height l + height r := by
  simp only [height, List.count_append]
  omega

@[simp] theorem height_loop (forms : List Form) : height (.loop :: forms) = height forms + 1 := by
  simp [height]
  omega

@[simp] theorem height_endLoop (forms : List Form) :
    height (.endLoop :: forms) = height forms - 1 := by
  simp [height]
  omega

theorem height_plain {form : Form} (h : form.isBracket = false) (forms : List Form) :
    height (form :: forms) = height forms := by
  cases form with
  | loop => simp [Form.isBracket] at h
  | endLoop => simp [Form.isBracket] at h
  | _ => simp [height]

namespace Balanced

/-- A `Balanced` list opens as many loops as it closes. -/
theorem height_eq {forms : List Form} (h : Balanced forms) : height forms = 0 := by
  induction h with
  | nil => rfl
  | plain hform _ ih => rw [height_plain hform, ih]
  | loop _ _ ihb ihr => simp [ihb, ihr]

/-- No front part of a `Balanced` list closes more loops than it opens. -/
theorem height_nonneg {l r : List Form} (h : Balanced (l ++ r)) : 0 ≤ height l := by
  generalize hforms : l ++ r = forms at h
  induction h generalizing l r with
  | nil =>
      obtain ⟨rfl, rfl⟩ := List.append_eq_nil_iff.1 hforms
      simp
  | plain hplain _ ih =>
      rcases List.cons_eq_append_iff.1 hforms.symm with ⟨rfl, -⟩ | ⟨l', rfl, hl'⟩
      · simp
      · rw [height_plain hplain]
        exact ih hl'.symm
  | loop hbody _ ihb ihr =>
      rcases loop_eq_append hforms.symm with
        ⟨rfl, -⟩ | ⟨l', r', rfl, hl', -⟩ | ⟨l', rfl, hl'⟩
      · simp
      · have hinner := ihb hl'.symm
        simp only [height_loop]
        omega
      · have houter := ihr hl'.symm
        simp only [height_loop, height_append, height_endLoop, hbody.height_eq]
        omega

theorem not_overclosed_take {forms : List Form} (h : Balanced forms) (k : Nat) :
    ¬ Overclosed (forms.take k) := by
  have hnonneg : 0 ≤ height (forms.take k) :=
    height_nonneg (r := forms.drop k) (by simpa using h)
  rw [overclosed_iff]
  omega

/-- A loop that opens in front of a `Balanced` end of a `Balanced` list would have to be closed
in that end. -/
theorem not_loop_append {l r : List Form} (h : Balanced (l ++ .loop :: r)) : ¬ Balanced r := by
  intro hr
  have hl := h.height_nonneg
  have htotal := h.height_eq
  simp only [height_append, height_loop, hr.height_eq] at htotal
  omega

end Balanced

/-! ### Pairs -/

/-- The forms strictly between the positions `p` and `q`. -/
def between (forms : List Form) (p q : Nat) : List Form := (forms.take q).drop (p + 1)

/-- A loop opens at `p` and closes at `q`: what lies `between` them is `Balanced`. -/
structure Encloses (forms : List Form) (p q : Nat) : Prop where
  opens : forms[p]? = some .loop
  closes : forms[q]? = some .endLoop
  lt : p < q
  inner : Balanced (between forms p q)

theorem between_eq_append {forms : List Form} {p k q : Nat} {form : Form} (hp : p < k) (hq : k < q)
    (h : forms[k]? = some form) :
    between forms p q = between forms p k ++ form :: between forms k q := by
  obtain ⟨hk, rfl⟩ := List.getElem?_eq_some_iff.1 h
  have htake : (forms.take q).take k = forms.take k := by
    rw [List.take_take, Nat.min_eq_left (Nat.le_of_lt hq)]
  have hlen : k < (forms.take q).length := by
    rw [List.length_take]
    omega
  have hdrop : (forms.take q).drop k = forms[k] :: between forms k q := by
    rw [List.drop_eq_getElem_cons hlen, List.getElem_take, between]
  calc between forms p q
      = ((forms.take q).take k ++ (forms.take q).drop k).drop (p + 1) := by
        rw [List.take_append_drop, between]
    _ = between forms p k ++ forms[k] :: between forms k q := by
        rw [htake, hdrop, List.drop_append_of_le_length (by rw [List.length_take]; omega)]
        rfl

namespace Encloses

variable {forms : List Form} {p q p' q' : Nat}

theorem not_lt (h : Encloses forms p q) (h' : Encloses forms p q') : ¬ q < q' := by
  intro hlt
  -- the first end would be a closing form too many between the loop and the second one
  have hinner := h'.inner
  rw [between_eq_append h.lt hlt h.closes, List.append_cons] at hinner
  have hnonneg := hinner.height_nonneg
  simp only [height_append, height_endLoop, height_nil, h.inner.height_eq] at hnonneg
  omega

/-- A loop that opens at `p` has one end only. -/
theorem unique (h : Encloses forms p q) (h' : Encloses forms p q') : q = q' :=
  Nat.le_antisymm (Nat.not_lt.1 (h'.not_lt h)) (Nat.not_lt.1 (h.not_lt h'))

/-- Loops that `Encloses` finds do not cross. -/
theorem not_crossing (h : Encloses forms p q) (h' : Encloses forms p' q') (hp : p < p')
    (hpq : p' < q) : ¬ q < q' := by
  intro hq
  have hinner := h.inner
  have hinner' := h'.inner
  rw [between_eq_append hp hpq h'.opens] at hinner
  rw [between_eq_append hpq hq h.closes, List.append_cons] at hinner'
  have hbefore := hinner.height_nonneg
  have htotal := hinner.height_eq
  have hbehind := hinner'.height_nonneg
  simp only [height_append, height_loop, height_endLoop, height_nil] at htotal hbehind
  omega

end Encloses

/-- The `index` pairs up the loops of the list `forms`. -/
structure Matching (forms : List Form) (index : LoopIndex) : Prop where
  /-- The positions with a partner are those at which a loop opens or closes. -/
  keys : ∀ p, (index.partner? p).isSome = true ↔
    ∃ form, forms[p]? = some form ∧ form.isBracket = true
  /-- The partner of a partner is where one came from: `partner?` is an involution. -/
  involution : ∀ p q, index.partner? p = some q → index.partner? q = some p
  /-- The partner of a `loop` is the `endLoop` behind it up to which loops pair up. -/
  loop : ∀ p, forms[p]? = some .loop → ∃ q, index.partner? p = some q ∧ Encloses forms p q
  /-- There are no other partners. -/
  pairs : ∀ p q, index.partner? p = some q ↔ Encloses forms p q ∨ Encloses forms q p
  /-- What lies between partners has its partner between them. -/
  noncrossing : ∀ p q p' q', index.partner? p = some q → index.partner? p' = some q' →
    p < p' → p' < q → p < q' ∧ q' < q
  /-- The `entries` are the partners, in both directions. -/
  entries : ∀ p q, (p, q) ∈ index.entries ↔ index.partner? p = some q

theorem LoopIndex.mem_entries_iff (index : LoopIndex) (p q : Nat) :
    (p, q) ∈ index.entries ↔ (p, q) ∈ index.pairs ∨ (q, p) ∈ index.pairs := by
  simp only [entries, List.mem_mergeSort, List.mem_flatMap, Prod.exists, List.mem_cons,
    Prod.mk.injEq, List.not_mem_nil, or_false]
  constructor
  · rintro ⟨start, stop, hmem, ⟨rfl, rfl⟩ | ⟨rfl, rfl⟩⟩
    · exact .inl hmem
    · exact .inr hmem
  · rintro (hmem | hmem)
    · exact ⟨p, q, hmem, .inl ⟨rfl, rfl⟩⟩
    · exact ⟨q, p, hmem, .inr ⟨rfl, rfl⟩⟩

namespace Block

variable {f : Function} {b : Block} {pos : Nat}

theorem partner?_eq_some_iff {p q : Nat} :
    (LoopIndex.mk (b.pairs pos)).partner? p = some q ↔
      (p, q) ∈ b.pairs pos ∨ (q, p) ∈ b.pairs pos := by
  rw [partner?_eq]
  constructor
  · intro h
    obtain ⟨⟨start, stop⟩, hmem, hmate⟩ := List.exists_of_findSome?_eq_some h
    simp only [mate] at hmate
    split at hmate
    · rename_i hstart
      cases hmate
      exact .inl (hstart ▸ hmem)
    · split at hmate
      · rename_i hstop
        cases hmate
        exact .inr (hstop ▸ hmem)
      · cases hmate
  · rintro (h | h)
    · exact (findSome?_mate h).1
    · exact (findSome?_mate h).2

theorem partner?_symm {p q : Nat} (h : (LoopIndex.mk (b.pairs pos)).partner? p = some q) :
    (LoopIndex.mk (b.pairs pos)).partner? q = some p :=
  partner?_eq_some_iff.2 (partner?_eq_some_iff.1 h).symm

theorem Placed.between_eq (h : Placed f (pos + 1) b) :
    between (f.body.map (·.form)) pos (pos + b.size + 1) = b.statements.map (·.form) := by
  obtain ⟨before, after, hbody, hlen⟩ := h.code
  have hstop : pos + b.size + 1 = (before ++ b.statements).length := by
    rw [List.length_append, hlen, size]
    omega
  rw [between, hbody, ← List.map_take, ← List.map_drop, hstop, ← List.append_assoc,
    List.take_left, ← hlen, List.drop_left]

/-- The `pairs` of a block are pairs of the list in which it is `Placed`. -/
theorem encloses_of_mem_pairs (h : Placed f pos b) {p q : Nat} (hpq : (p, q) ∈ b.pairs pos) :
    Encloses (f.body.map (·.form)) p q := by
  induction b generalizing pos with
  | done => cases hpq
  | plain s hs rest ih => exact ih h.plain_rest hpq
  | loop s hs body close hc rest ihb ihr =>
      rcases List.mem_append.1 hpq with hrest | hpq
      · exact ihr h.loop_rest hrest
      · rcases List.mem_cons.1 hpq with heq | hinner
        · cases heq
          refine ⟨?_, ?_, by omega, ?_⟩
          · rw [List.getElem?_map, h.loop_current, Option.map_some, hs]
          · rw [List.getElem?_map, h.loop_close, Option.map_some, hc]
          · rw [h.loop_body.between_eq]
            exact balanced_statements body
        · exact ihb h.loop_body hinner

/-- Every bracket of a block that is `Placed` in a body is in one of its `pairs`. -/
theorem exists_pair (h : Placed f pos b) {x : Nat} {s : Statement} (hx : f.body[x]? = some s)
    (hs : s.form.isBracket = true) (hlow : pos ≤ x) (hhigh : x < pos + b.size) :
    ∃ y, (x, y) ∈ b.pairs pos ∨ (y, x) ∈ b.pairs pos := by
  induction b generalizing pos with
  | done => simp [size, statements] at hhigh; omega
  | plain s' hs' rest ih =>
      rw [size_plain] at hhigh
      rcases Nat.eq_or_lt_of_le hlow with rfl | hlt
      · cases h.plain_current.symm.trans hx
        simp [hs'] at hs
      · exact ih h.plain_rest hlt (by omega)
  | loop s' hs' body close hc rest ihb ihr =>
      rw [size_loop] at hhigh
      simp only [pairs, List.mem_append, List.mem_cons, Prod.mk.injEq]
      rcases Nat.lt_trichotomy x (pos + body.size + 1) with hbody | rfl | hrest
      · rcases Nat.eq_or_lt_of_le hlow with rfl | hlt
        · exact ⟨pos + body.size + 1, .inl (.inr (.inl ⟨rfl, rfl⟩))⟩
        · obtain ⟨y, hy⟩ := ihb h.loop_body hlt (by omega)
          exact ⟨y, hy.imp (.inr ∘ .inr) (.inr ∘ .inr)⟩
      · exact ⟨pos, .inr (.inr (.inl ⟨rfl, rfl⟩))⟩
      · obtain ⟨y, hy⟩ := ihr h.loop_rest (by omega) (by omega)
        exact ⟨y, hy.imp .inl .inl⟩

section

variable (h : parse? f.body = some b) {p q : Nat}

include h

theorem encloses_of_partner? (hpq : (LoopIndex.mk (b.pairs 0)).partner? p = some q) :
    Encloses (f.body.map (·.form)) p q ∨ Encloses (f.body.map (·.form)) q p :=
  have hplaced := placed_of_parse? h
  (partner?_eq_some_iff.1 hpq).imp (encloses_of_mem_pairs hplaced) (encloses_of_mem_pairs hplaced)

theorem exists_partner? {form : Form} (hp : (f.body.map (·.form))[p]? = some form)
    (hform : form.isBracket = true) : ∃ q, (LoopIndex.mk (b.pairs 0)).partner? p = some q := by
  rw [List.getElem?_map, Option.map_eq_some_iff] at hp
  obtain ⟨s, hs, rfl⟩ := hp
  have hlt : p < 0 + b.size := by
    have hlen := (List.getElem?_eq_some_iff.1 hs).1
    rw [← parse?_eq_some_iff.1 h] at hlen
    simpa [size] using hlen
  obtain ⟨q, hq⟩ := exists_pair (placed_of_parse? h) hs hform (Nat.zero_le p) hlt
  exact ⟨q, partner?_eq_some_iff.2 hq⟩

theorem exists_encloses (hp : (f.body.map (·.form))[p]? = some .loop) :
    ∃ q, (LoopIndex.mk (b.pairs 0)).partner? p = some q ∧
      Encloses (f.body.map (·.form)) p q := by
  obtain ⟨q, hq⟩ := exists_partner? h hp rfl
  refine ⟨q, hq, (encloses_of_partner? h hq).resolve_right fun hqp => ?_⟩
  cases hp.symm.trans hqp.closes

/-- The partners by the `pairs` of a body are those that `Encloses` says. -/
theorem partner?_eq_some_iff_encloses :
    (LoopIndex.mk (b.pairs 0)).partner? p = some q ↔
      Encloses (f.body.map (·.form)) p q ∨ Encloses (f.body.map (·.form)) q p := by
  have hpair : ∀ {p q}, Encloses (f.body.map (·.form)) p q →
      (LoopIndex.mk (b.pairs 0)).partner? p = some q := by
    intro p q hpq
    obtain ⟨q', hq', hpq'⟩ := exists_encloses h hpq.opens
    rwa [hpq.unique hpq']
  refine ⟨encloses_of_partner? h, ?_⟩
  rintro (hpq | hqp)
  · exact hpair hpq
  · exact partner?_symm (hpair hqp)

/-- What lies between partners has its `partner?` between them. -/
theorem partner?_between {p' q' : Nat} (hp : (LoopIndex.mk (b.pairs 0)).partner? p = some q)
    (hp' : (LoopIndex.mk (b.pairs 0)).partner? p' = some q') (hlt : p < p') (hlt' : p' < q) :
    p < q' ∧ q' < q := by
  have hpq : Encloses (f.body.map (·.form)) p q := by
    refine (encloses_of_partner? h hp).resolve_right fun hqp => ?_
    have := hqp.lt
    omega
  -- partners are unique, so the two pairs have no end in common
  have hne : q' ≠ p ∧ q' ≠ q := by
    constructor
    · rintro rfl
      cases (partner?_symm hp').symm.trans hp
      omega
    · rintro rfl
      cases (partner?_symm hp').symm.trans (partner?_symm hp)
      omega
  rcases encloses_of_partner? h hp' with hpq' | hqp'
  · have hcross := hpq.not_crossing hpq' hlt hlt'
    have := hpq'.lt
    omega
  · have hcross := hqp'.not_crossing hpq
    have := hqp'.lt
    omega

/-- The `pairs` of a body that `parse?` reads are a `Matching` of its forms. -/
theorem matching_of_parse? : Matching (f.body.map (·.form)) ⟨b.pairs 0⟩ where
  keys p := by
    rw [Option.isSome_iff_exists]
    constructor
    · rintro ⟨q, hq⟩
      rcases encloses_of_partner? h hq with hpq | hqp
      · exact ⟨_, hpq.opens, rfl⟩
      · exact ⟨_, hqp.closes, rfl⟩
    · rintro ⟨form, hp, hform⟩
      exact exists_partner? h hp hform
  involution _ _ := partner?_symm
  loop _ := exists_encloses h
  pairs _ _ := partner?_eq_some_iff_encloses h
  noncrossing _ _ _ _ := partner?_between h
  entries p q := by rw [LoopIndex.mem_entries_iff, partner?_eq_some_iff]

end

end Block

/-! ### Faults -/

/-- The positions of the loops that are open behind a list, innermost first. Behind each of
them, up to the next one, the forms are `Balanced`. -/
inductive Opened : List Form → List Nat → Prop
  | none {forms : List Form} (h : Balanced forms) : Opened forms []
  | some {before inner : List Form} {opened : List Nat} (h : Opened before opened)
      (hinner : Balanced inner) : Opened (before ++ .loop :: inner) (before.length :: opened)

namespace Opened

variable {forms : List Form} {opened : List Nat}

theorem append {more : List Form} (h : Opened forms opened) (hmore : Balanced more) :
    Opened (forms ++ more) opened := by
  cases h with
  | none h => exact .none (h.append hmore)
  | some h hinner =>
      rw [List.append_assoc, List.cons_append]
      exact .some h (hinner.append hmore)

/-- An `endLoop` closes the innermost open loop. -/
theorem close {start : Nat} (h : Opened forms (start :: opened)) :
    Opened (forms ++ [.endLoop]) opened := by
  cases h with
  | some h hinner =>
      rw [List.append_assoc]
      exact h.append (.loop hinner .nil)

theorem height_nonneg {l r : List Form} (h : Opened (l ++ r) opened) : 0 ≤ height l := by
  generalize hforms : l ++ r = forms at h
  induction h generalizing l r with
  | none h => exact Balanced.height_nonneg (hforms ▸ h)
  | @some before inner opened h hinner ih =>
      -- the front part ends before the innermost open loop, or behind it in a balanced list
      rcases List.append_eq_append_iff.1 hforms with ⟨as, hbefore, -⟩ | ⟨bs, rfl, hbs⟩
      · exact ih hbefore.symm
      · have hfront : 0 ≤ height before := ih (r := []) (List.append_nil _)
        rcases List.cons_eq_append_iff.1 hbs with ⟨rfl, -⟩ | ⟨bs', rfl, rfl⟩
        · simpa using hfront
        · have hback := hinner.height_nonneg
          simp only [height_append, height_loop]
          omega

end Opened

/-- Why a list of forms is not paired up, as `scan` reports it: a closing form finds nothing
open, or the end of the list finds a loop open. -/
inductive Unpairs (name : String) : List Form → LoopFault → Prop
  | notOpened {before after : List Form} (h : Balanced before) :
      Unpairs name (before ++ .endLoop :: after) ⟨.notOpened, name, before.length⟩
  | notClosed {before inner : List Form} {opened : List Nat} (h : Opened before opened)
      (hinner : Balanced inner) :
      Unpairs name (before ++ .loop :: inner) ⟨.notClosed, name, before.length⟩

/-- A `scan` fails for the reason that the forms give which it has passed and those which are
left. -/
theorem unpairs_of_scan {name : String} {forms rest : List Form} {opened : List Nat}
    {found : List (Nat × Nat)} {e : LoopFault} (hopened : Opened forms opened)
    (h : LoopIndex.scan name forms.length opened found rest = .error e) :
    Unpairs name (forms ++ rest) e := by
  induction rest generalizing forms opened found with
  | nil =>
      cases hopened with
      | none hforms => cases h
      | some hbefore hinner =>
          cases h
          rw [List.append_nil]
          exact .notClosed hbefore hinner
  | cons form rest ih =>
      -- each form moves the open positions on to a list that is longer by it
      have hlen : ∀ form : Form, (forms ++ [form]).length = forms.length + 1 :=
        fun _ => List.length_append
      rw [List.append_cons]
      by_cases ho : form = .loop
      · subst ho
        exact ih (.some hopened .nil) (by rwa [hlen])
      · by_cases hc : form = .endLoop
        · subst hc
          cases opened with
          | nil =>
              cases hopened with
              | none hforms =>
                  cases h
                  rw [← List.append_cons]
                  exact .notOpened hforms
          | cons start opened => exact ih hopened.close (by rwa [hlen])
        · have hplain := Form.isBracket_eq_false ho hc
          rw [Block.scan_cons_plain hplain] at h
          exact ih (hopened.append (.plain hplain .nil)) (by rwa [hlen])

/-- The form at `p` closes a loop that is not open, and is the first to do so: up to it, the
list is `Overclosed`. -/
structure ClosesTooMany (forms : List Form) (p : Nat) : Prop where
  closes : forms[p]? = some .endLoop
  surplus : Overclosed (forms.take (p + 1))
  first : ∀ k ≤ p, ¬ Overclosed (forms.take k)

/-- The form at `p` is a `loop`, and behind it loops pair up without it. -/
structure StaysOpen (forms : List Form) (p : Nat) : Prop where
  opens : forms[p]? = some .loop
  rest : Balanced (forms.drop (p + 1))

theorem StaysOpen.eq_append {forms : List Form} {p : Nat} (h : StaysOpen forms p) :
    ∃ before inner, forms = before ++ .loop :: inner ∧ before.length = p ∧ Balanced inner := by
  obtain ⟨hp, hform⟩ := List.getElem?_eq_some_iff.1 h.opens
  refine ⟨forms.take p, forms.drop (p + 1), ?_, List.length_take_of_le (Nat.le_of_lt hp), h.rest⟩
  rw [← hform, List.getElem_cons_drop, List.take_append_drop]

theorem staysOpen_append (before : List Form) {inner : List Form} (hinner : Balanced inner) :
    StaysOpen (before ++ .loop :: inner) before.length where
  opens := by simp
  rest := by simpa using hinner

/-- At most one loop `StaysOpen`. -/
theorem StaysOpen.unique {forms : List Form} {p q : Nat} (hp : StaysOpen forms p)
    (hq : StaysOpen forms q) : p = q := by
  obtain ⟨l, r, rfl, rfl, hr⟩ := hp.eq_append
  obtain ⟨l', r', heq, rfl, hr'⟩ := hq.eq_append
  -- otherwise one of the two loops would stand in the balanced part behind the other
  rcases List.append_eq_append_iff.1 heq with ⟨as, rfl, has⟩ | ⟨bs, rfl, hbs⟩
  · rcases List.cons_eq_append_iff.1 has with ⟨rfl, -⟩ | ⟨as', rfl, rfl⟩
    · simp
    · exact absurd hr' hr.not_loop_append
  · rcases List.cons_eq_append_iff.1 hbs with ⟨rfl, -⟩ | ⟨bs', rfl, rfl⟩
    · simp
    · exact absurd hr hr'.not_loop_append

theorem overclosed_take {before after : List Form} (h : Balanced before) :
    Overclosed ((before ++ .endLoop :: after).take (before.length + 1)) := by
  rw [List.append_cons, List.take_left' (by simp), overclosed_iff]
  simp [h.height_eq]

namespace Unpairs

variable {name : String} {forms : List Form} {e : LoopFault}

theorem function_eq (h : Unpairs name forms e) : e.function = name := by
  cases h <;> rfl

/-- Where some front part is `Overclosed`, the fault is at the end of the shortest one. -/
theorem closesTooMany (h : Unpairs name forms e) (hover : ∃ k, Overclosed (forms.take k)) :
    ClosesTooMany forms e.position := by
  cases h with
  | @notOpened before after h =>
      refine ⟨by simp, overclosed_take h, fun k hk => ?_⟩
      rw [List.take_append_of_le_length hk]
      exact h.not_overclosed_take k
  | @notClosed before inner opened h hinner =>
      obtain ⟨k, hk⟩ := hover
      have hall : Opened (before ++ .loop :: inner) (before.length :: opened) := .some h hinner
      rw [← List.take_append_drop k (before ++ .loop :: inner)] at hall
      have hnonneg := hall.height_nonneg
      rw [overclosed_iff] at hk
      omega

/-- Where none is, the fault is at the one loop that `StaysOpen`. -/
theorem staysOpen_iff (h : Unpairs name forms e) (hnone : ∀ k, ¬ Overclosed (forms.take k))
    (p : Nat) : StaysOpen forms p ↔ p = e.position := by
  cases h with
  | @notOpened before after h => exact absurd (overclosed_take h) (hnone (before.length + 1))
  | @notClosed before inner opened h hinner =>
      have hopen := staysOpen_append before hinner
      constructor
      · intro hp
        exact hp.unique hopen
      · rintro rfl
        exact hopen

end Unpairs

namespace LoopIndex

/-- **The loop index is the matching of the grammar.** A list of statements has an index by
`ofBody` exactly if its `brackets` are `Balanced`, and then the index is a `Matching`: it leads
from every opening form to the closing form up to which loops pair up, and back. A list without
an index has a fault that names the function. It is at the first closing form behind which more
loops are closed than opened, or, where there is none, at the one loop behind which all loops
pair up without it. -/
theorem ofBody_matching (name : String) (body : List Statement) :
    ((∃ index, ofBody name body = .ok index) ↔ Balanced (brackets (body.map (·.form)))) ∧
    (∀ index, ofBody name body = .ok index → Matching (body.map (·.form)) index) ∧
    ∀ e, ofBody name body = .error e →
      e.function = name ∧
      ((∃ k, Overclosed ((body.map (·.form)).take k)) →
        ClosesTooMany (body.map (·.form)) e.position) ∧
      ((∀ k, ¬ Overclosed ((body.map (·.form)).take k)) →
        ∀ p, StaysOpen (body.map (·.form)) p ↔ p = e.position) := by
  have hindex : (Function.make name [] body "").loopIndex = ofBody name body := rfl
  refine ⟨?_, ?_, ?_⟩
  · rw [balanced_brackets_iff, ← hindex]
    exact Block.balanced_iff_loopIndex.symm
  · intro index h
    cases hb : Block.parse? body with
    | none =>
        obtain ⟨e, he⟩ := Block.loopIndex_of_parse?_none (f := .make name [] body "") hb
        cases he.symm.trans h
    | some b =>
        have hpairs := Block.loopIndex_of_parse? (f := .make name [] body "") hb
        cases hpairs.symm.trans h
        exact Block.matching_of_parse? (f := .make name [] body "") hb
  · intro e h
    have hunpairs : Unpairs name ([] ++ body.map (·.form)) e := unpairs_of_scan (.none .nil) h
    exact ⟨hunpairs.function_eq, hunpairs.closesTooMany, hunpairs.staysOpen_iff⟩

instance (forms : List Form) : Decidable (Overclosed forms) :=
  inferInstanceAs (Decidable (forms.count .loop < forms.count .endLoop))

/-- Two loops inside another one, with a `ret` between them. -/
def nestedPair : List Statement :=
  [.loop ⟨"int", "2"⟩ "", .loop ⟨"int", "1"⟩ "", .endLoop "", .ret "" "", .loop ⟨"int", "3"⟩ "",
    .endLoop "", .endLoop ""]

/-- The list `nestedPair` and an `endLoop` too many, before another loop opens. -/
def tooManyClosed : List Statement := nestedPair ++ [.endLoop "", .loop ⟨"int", "1"⟩ ""]

/-- The list `nestedPair` behind two loops that are left open. -/
def twoLeftOpen : List Statement :=
  .loop ⟨"int", "1"⟩ "" :: .loop ⟨"int", "1"⟩ "" :: nestedPair

theorem ofBody_matching_nestedPair :
    (∃ index, ofBody "f" nestedPair = .ok index ∧
      index.entries = [(0, 6), (1, 2), (2, 1), (4, 5), (5, 4), (6, 0)] ∧
      Matching (nestedPair.map (·.form)) index) ∧
    (ofBody "f" tooManyClosed = .error ⟨.notOpened, "f", 7⟩ ∧
      ClosesTooMany (tooManyClosed.map (·.form)) 7) ∧
    ofBody "f" twoLeftOpen = .error ⟨.notClosed, "f", 1⟩ ∧
      ∀ p, StaysOpen (twoLeftOpen.map (·.form)) p ↔ p = 1 := by
  refine ⟨⟨⟨[(0, 6), (4, 5), (1, 2)]⟩, rfl, ?_, ?_⟩, ⟨rfl, ?_⟩, rfl, ?_⟩
  · simp [entries, List.mergeSort]
  · exact (ofBody_matching "f" nestedPair).2.1 _ rfl
  · exact ((ofBody_matching "f" tooManyClosed).2.2 _ rfl).2.1 ⟨8, by decide⟩
  · refine ((ofBody_matching "f" twoLeftOpen).2.2 _ rfl).2.2 fun k => ?_
    rcases Nat.lt_or_ge k 9 with hk | hk
    · revert k
      decide
    · rw [List.take_of_length_le hk]
      decide

end LoopIndex

end BusScript
