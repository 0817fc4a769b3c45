/-!
# Association lists in insertion order

Variables and definitions are kept under names. Both are lists of pairs in
which a name keeps the place of its first insertion: `put` replaces in place
or appends, `erase` removes. Looking up is `List.lookup`.

The lemmas say what `put` and `erase` do to the two views of a list, its
names and its look-ups.
-/

namespace BusScript.Assoc

variable {α : Type}

/-- The names of `l`, in order. -/
def names (l : List (String × α)) : List String := l.map (·.1)

/-- Bind `name`: in place if it is bound already, else at the end. -/
def put (name : String) (a : α) : List (String × α) → List (String × α)
  | [] => [(name, a)]
  | (n, b) :: l => if n = name then (n, a) :: l else (n, b) :: put name a l

/-- Remove `name`, and with it every binding that it has. -/
def erase (name : String) (l : List (String × α)) : List (String × α) :=
  l.filter fun b => b.1 ≠ name

/-! ### Names -/

@[simp] theorem names_nil : names ([] : List (String × α)) = [] := rfl

@[simp] theorem names_cons (b : String × α) (l : List (String × α)) :
    names (b :: l) = b.1 :: names l := rfl

@[simp] theorem names_append (l m : List (String × α)) :
    names (l ++ m) = names l ++ names m := by
  simp [names]

/-- The names after `put` are those of before, with a new name at the end. -/
theorem names_put (name : String) (a : α) (l : List (String × α)) :
    names (put name a l) = if name ∈ names l then names l else names l ++ [name] := by
  induction l with
  | nil => rfl
  | cons b l ih =>
    obtain ⟨n, c⟩ := b
    by_cases h : n = name
    · simp [put, h]
    · have h' : name ≠ n := fun e => h e.symm
      simp only [put, h, if_false, names_cons, ih, List.mem_cons, h', false_or]
      split <;> simp

theorem names_erase (name : String) (l : List (String × α)) :
    names (erase name l) = (names l).filter (· ≠ name) := by
  simp only [names, erase, List.filter_map]
  rfl

/-- Distinct names stay distinct under `put`. -/
theorem nodup_put {name : String} {a : α} {l : List (String × α)} (h : (names l).Nodup) :
    (names (put name a l)).Nodup := by
  rw [names_put]
  split
  · exact h
  · rename_i hn
    rw [List.nodup_append]
    refine ⟨h, by simp, ?_⟩
    rintro x hx y hy rfl
    simp only [List.mem_singleton] at hy
    exact hn (hy ▸ hx)

/-- Distinct names stay distinct under `erase`. -/
theorem nodup_erase {name : String} {l : List (String × α)} (h : (names l).Nodup) :
    (names (erase name l)).Nodup := by
  rw [names_erase]
  exact h.filter _

/-! ### Places -/

/-- A name that is free is bound at the end. -/
theorem put_of_not_mem {name : String} {l : List (String × α)} (h : name ∉ names l) (a : α) :
    put name a l = l ++ [(name, a)] := by
  induction l with
  | nil => rfl
  | cons b l ih =>
    obtain ⟨n, c⟩ := b
    rw [names_cons, List.mem_cons, not_or] at h
    rw [put, if_neg (Ne.symm h.1), ih h.2, List.cons_append]

/-- A name that is bound is bound anew in its place; what stands around it stays. -/
theorem put_append {name : String} {l : List (String × α)} (h : name ∉ names l) (a b : α)
    (m : List (String × α)) : put name a (l ++ (name, b) :: m) = l ++ (name, a) :: m := by
  induction l with
  | nil => simp [put]
  | cons c l ih =>
    obtain ⟨n, d⟩ := c
    rw [names_cons, List.mem_cons, not_or] at h
    rw [List.cons_append, put, if_neg (Ne.symm h.1), ih h.2, List.cons_append]

/-- The last of two bindings by `put` to one name counts. -/
theorem put_put (name : String) (a b : α) (l : List (String × α)) :
    put name a (put name b l) = put name a l := by
  induction l with
  | nil => simp [put]
  | cons c l ih =>
    obtain ⟨n, d⟩ := c
    by_cases h : n = name
    · simp [put, h]
    · simp [put, h, ih]

/-- Two names are bound independently, once the place of one of them is settled. Without `hx`
the order of the names could differ. -/
theorem put_comm {x y : String} (hxy : x ≠ y) {l : List (String × α)} (hx : x ∈ names l)
    (a b : α) : put x a (put y b l) = put y b (put x a l) := by
  induction l with
  | nil => simp at hx
  | cons c l ih =>
    obtain ⟨n, d⟩ := c
    by_cases hn : n = x
    · subst hn
      simp [put, hxy]
    · have hmem : x ∈ names l := (List.mem_cons.1 hx).resolve_left (Ne.symm hn)
      by_cases hny : n = y
      · simp [put, hny, Ne.symm hxy]
      · simp [put, hn, hny, ih hmem]

/-! ### Members -/

/-- Whatever is bound after `put` is the new binding, or was bound before. -/
theorem mem_of_mem_put {name : String} {a : α} {l : List (String × α)} {b : String × α}
    (h : b ∈ put name a l) : b = (name, a) ∨ b ∈ l := by
  induction l with
  | nil => simpa [put] using h
  | cons c l ih =>
    obtain ⟨n, d⟩ := c
    simp only [put] at h
    split at h
    · rename_i hn
      subst hn
      rcases List.mem_cons.1 h with rfl | h
      · exact .inl rfl
      · exact .inr (List.mem_cons_of_mem _ h)
    · rcases List.mem_cons.1 h with rfl | h
      · exact .inr List.mem_cons_self
      · exact (ih h).imp_right (List.mem_cons_of_mem _)

theorem mem_of_mem_erase {name : String} {l : List (String × α)} {b : String × α}
    (h : b ∈ erase name l) : b ∈ l :=
  (List.mem_filter.1 h).1

/-! ### Look-ups -/

theorem lookup_cons (x n : String) (c : α) (l : List (String × α)) :
    ((n, c) :: l).lookup x = if x = n then some c else l.lookup x := by
  by_cases h : x = n
  · simp [h]
  · have hb : (x == n) = false := by simpa using h
    simp [List.lookup_cons, hb, h]

/-- A look-up after `put` finds the new value under its name, and nothing else changes. -/
theorem lookup_put (name x : String) (a : α) (l : List (String × α)) :
    (put name a l).lookup x = if x = name then some a else l.lookup x := by
  induction l with
  | nil => simp only [put, lookup_cons]
  | cons b l ih =>
    obtain ⟨n, c⟩ := b
    simp only [put]
    split
    · rename_i hn
      subst hn
      simp only [lookup_cons]
      split <;> rfl
    · rename_i hn
      simp only [lookup_cons, ih]
      by_cases h : x = n
      · simp [h, hn]
      · simp [h]

/-- A look-up after `erase` fails under the removed name, and nothing else changes. -/
theorem lookup_erase (name x : String) (l : List (String × α)) :
    (erase name l).lookup x = if x = name then none else l.lookup x := by
  induction l with
  | nil => simp [erase]
  | cons b l ih =>
    obtain ⟨n, c⟩ := b
    rw [lookup_cons]
    by_cases hn : n = name
    · have : erase name ((n, c) :: l) = erase name l := by simp [erase, hn]
      rw [this, ih]
      by_cases h : x = name
      · simp [h]
      · simp [h, hn]
    · have : erase name ((n, c) :: l) = (n, c) :: erase name l := by simp [erase, hn]
      rw [this, lookup_cons, ih]
      by_cases h : x = n
      · simp [h, hn]
      · simp [h]

/-- A look-up fails exactly for the names that are not among `names`. -/
theorem lookup_eq_none_iff {x : String} {l : List (String × α)} :
    l.lookup x = none ↔ x ∉ names l := by
  induction l with
  | nil => simp
  | cons b l ih =>
    obtain ⟨n, c⟩ := b
    rw [lookup_cons]
    by_cases h : x = n
    · simp [h]
    · simp [h, ih]

theorem mem_names_of_lookup {x : String} {l : List (String × α)} {a : α}
    (h : l.lookup x = some a) : x ∈ names l := by
  rcases Decidable.em (x ∈ names l) with hx | hx
  · exact hx
  · simp [lookup_eq_none_iff.2 hx] at h

theorem mem_of_lookup {x : String} {l : List (String × α)} {a : α}
    (h : l.lookup x = some a) : (x, a) ∈ l := by
  induction l with
  | nil => simp at h
  | cons b l ih =>
    obtain ⟨n, c⟩ := b
    rw [lookup_cons] at h
    split at h
    · rename_i hx
      subst hx
      simp only [Option.some.injEq] at h
      simp [h]
    · exact List.mem_cons_of_mem _ (ih h)

/-- With distinct names, every binding of the list is found by `lookup`. -/
theorem lookup_of_mem {x : String} {l : List (String × α)} {a : α} (hnodup : (names l).Nodup)
    (h : (x, a) ∈ l) : l.lookup x = some a := by
  induction l with
  | nil => simp at h
  | cons b l ih =>
    obtain ⟨n, c⟩ := b
    rw [names_cons, List.nodup_cons] at hnodup
    obtain ⟨hn, hnodup⟩ := hnodup
    rw [lookup_cons]
    rcases List.mem_cons.1 h with heq | hl
    · cases heq
      simp
    · have hx := ih hnodup hl
      have hne : x ≠ n := fun heq => hn (heq ▸ mem_names_of_lookup hx)
      rw [if_neg hne, hx]

end BusScript.Assoc
