import BusScript.Assoc
import BusScript.Tagged

/-!
# Variable stores

A store maps names to tagged values and remembers in which order names were
first bound. Two facts hold of every store and are part of its type: names are
distinct, and no value is empty. Binding a name to the empty value therefore
*removes* the name.

Main statements, one for each operation and view:

* `get?_set`, `get?_erase`, `get?_insertNew`, `get?_merge`, `get?_ofList` —
  look-ups;
* `bindings_ofList` — bindings of different names, which are kept;
* `names_set`, `names_erase`, `names_insertNew` — names and their order.
-/

namespace BusScript

/-- A scope: names bound to values that are not empty (`Tagged.isEmpty`), in the order of
binding. -/
structure Store where
  bindings : List (String × Tagged)
  nodup : (Assoc.names bindings).Nodup
  nonempty : ∀ b ∈ bindings, b.2.isEmpty = false

namespace Store

/-- Stores with the same bindings in the same order are equal. -/
@[ext] theorem ext {s t : Store} (h : s.bindings = t.bindings) : s = t := by
  cases s; cases t; cases h; rfl

instance : DecidableEq Store := fun s t =>
  decidable_of_iff (s.bindings = t.bindings) ⟨ext, fun h => h ▸ rfl⟩

/-! ### Views -/

/-- The value of `name`, if it is bound. -/
def get? (s : Store) (name : String) : Option Tagged := s.bindings.lookup name

/-- Whether `name` is bound, that is, whether `get?` finds a value. -/
def contains (s : Store) (name : String) : Bool := (s.get? name).isSome

/-- The bound names, in the order of binding. -/
def names (s : Store) : List String := Assoc.names s.bindings

/-- The number of bound names. -/
def size (s : Store) : Nat := s.bindings.length

/-- The text form (`Tagged.render`) of the value of `name`. -/
def getText? (s : Store) (name : String) : Option String := (s.get? name).map Tagged.render

/-! ### Operations -/

/-- The store without a binding, also written `{}`. -/
def empty : Store := ⟨[], by simp, by simp⟩

instance : EmptyCollection Store := ⟨empty⟩

instance : Inhabited Store := ⟨empty⟩

/-- Remove `name`, if it is bound. -/
def erase (s : Store) (name : String) : Store where
  bindings := Assoc.erase name s.bindings
  nodup := Assoc.nodup_erase s.nodup
  nonempty := fun b hb => s.nonempty b (Assoc.mem_of_mem_erase hb)

/-- Bind `name` to a value that is not empty. Use `set` for values that may be. -/
def put (s : Store) (name : String) (v : Tagged) (h : v.isEmpty = false) : Store where
  bindings := Assoc.put name v s.bindings
  nodup := Assoc.nodup_put s.nodup
  nonempty := fun b hb => by
    rcases Assoc.mem_of_mem_put hb with rfl | hb
    · exact h
    · exact s.nonempty b hb

/-- Bind `name`: replace its value in place or append it. The empty value removes the name, as
`erase` does. -/
def set (s : Store) (name : String) (v : Tagged) : Store :=
  if h : v.isEmpty then s.erase name else s.put name v (by simpa using h)

/-- Bind `name` unless it is bound or the value is empty. -/
def insertNew (s : Store) (name : String) (v : Tagged) : Store :=
  if s.contains name then s
  else if h : v.isEmpty then s
  else s.put name v (by simpa using h)

/-- Bind the names of `t` that `s` does not bind, in the order of `t`, each by `insertNew`. -/
def merge (s t : Store) : Store :=
  t.bindings.foldl (fun s b => s.insertNew b.1 b.2) s

/-- Bind the pairs of a list one after the other by `set`. -/
def ofList (bs : List (String × Tagged)) : Store :=
  bs.foldl (fun s b => s.set b.1 b.2) empty

/-- The text form of a store, with each value as `Tagged.render` has it. -/
def render (s : Store) : String :=
  "VariableStore(" ++ ", ".intercalate (s.bindings.map fun b => b.1 ++ "=" ++ b.2.render) ++ ")"

/-! ### What the operations do to the views -/

@[simp] theorem get?_empty (x : String) : empty.get? x = none := rfl

theorem contains_iff {s : Store} {x : String} : s.contains x = true ↔ x ∈ s.names := by
  rw [contains, Option.isSome_iff_ne_none, get?, ne_eq, Assoc.lookup_eq_none_iff,
    Decidable.not_not, names]

theorem get?_eq_none_iff {s : Store} {x : String} : s.get? x = none ↔ x ∉ s.names :=
  Assoc.lookup_eq_none_iff

theorem mem_names_of_get? {s : Store} {x : String} {v : Tagged} (h : s.get? x = some v) :
    x ∈ s.names :=
  Assoc.mem_names_of_lookup h

/-- What `get?` finds is not empty, since no such value is stored. -/
theorem isEmpty_of_get? {s : Store} {x : String} {v : Tagged} (h : s.get? x = some v) :
    v.isEmpty = false :=
  s.nonempty (x, v) (Assoc.mem_of_lookup h)

theorem get?_erase (s : Store) (name x : String) :
    (s.erase name).get? x = if x = name then none else s.get? x :=
  Assoc.lookup_erase name x s.bindings

theorem get?_put (s : Store) (name x : String) (v : Tagged) (h : v.isEmpty = false) :
    (s.put name v h).get? x = if x = name then some v else s.get? x :=
  Assoc.lookup_put name x v s.bindings

/-- A look-up after `set` finds the new value under its name, nothing there if it is empty, and
what was there before under all other names. -/
theorem get?_set (s : Store) (name x : String) (v : Tagged) :
    (s.set name v).get? x =
      if x = name then (if v.isEmpty then none else some v) else s.get? x := by
  unfold set
  split
  · exact get?_erase s name x
  · exact get?_put s name x v _

/-- A look-up after `insertNew` finds something new only under a name that was free. -/
theorem get?_insertNew (s : Store) (name x : String) (v : Tagged) :
    (s.insertNew name v).get? x =
      if x = name ∧ s.get? x = none ∧ v.isEmpty = false then some v else s.get? x := by
  unfold insertNew
  split
  · rename_i h
    have hn : s.get? name ≠ none := by simpa [contains, Option.isSome_iff_ne_none] using h
    rw [if_neg]
    rintro ⟨rfl, h0, -⟩
    exact hn h0
  · rename_i h
    have hn : s.get? name = none := by simpa [contains] using h
    split
    · rename_i hv
      simp [hv]
    · rename_i hv
      rw [get?_put]
      by_cases hx : x = name
      · subst hx
        simp [hn, hv]
      · simp [hx]

/-- Inserting bindings one by one leaves what is bound, and lets the first of several bindings
of a free name count. -/
theorem get?_foldl_insertNew (bs : List (String × Tagged)) (s : Store) (x : String)
    (h : ∀ b ∈ bs, b.2.isEmpty = false) :
    (bs.foldl (fun s b => s.insertNew b.1 b.2) s).get? x = (s.get? x).or (bs.lookup x) := by
  induction bs generalizing s with
  | nil => simp
  | cons b bs ih =>
    obtain ⟨n, v⟩ := b
    have hv : v.isEmpty = false := h (n, v) List.mem_cons_self
    rw [List.foldl_cons, ih _ (fun b hb => h b (List.mem_cons_of_mem _ hb)), get?_insertNew]
    by_cases hx : x = n
    · subst hx
      cases s.get? x <;> simp [hv]
    · simp [hx, Assoc.lookup_cons]

/-- The names of the first store shadow those of the second in a `merge`. -/
theorem get?_merge (s t : Store) (x : String) :
    (s.merge t).get? x = (s.get? x).or (t.get? x) :=
  get?_foldl_insertNew t.bindings s x t.nonempty

/-- Setting bindings one by one lets the last binding of a name count. -/
theorem get?_foldl_set (bs : List (String × Tagged)) (s : Store) (x : String)
    (h : ∀ b ∈ bs, b.2.isEmpty = false) :
    (bs.foldl (fun s b => s.set b.1 b.2) s).get? x = (bs.reverse.lookup x).or (s.get? x) := by
  induction bs generalizing s with
  | nil => simp
  | cons b bs ih =>
    obtain ⟨n, v⟩ := b
    have hv : v.isEmpty = false := h (n, v) List.mem_cons_self
    rw [List.foldl_cons, ih _ (fun b hb => h b (List.mem_cons_of_mem _ hb)), get?_set,
      List.reverse_cons, List.lookup_append, Option.or_assoc, Assoc.lookup_cons]
    by_cases hx : x = n
    · simp [hx, hv]
    · simp [hx]

/-- Of several bindings of a name in the list of `ofList`, the last one counts. -/
theorem get?_ofList {bs : List (String × Tagged)} (h : ∀ b ∈ bs, b.2.isEmpty = false)
    (x : String) : (ofList bs).get? x = bs.reverse.lookup x := by
  rw [ofList, get?_foldl_set bs empty x h, get?_empty, Option.or_none]

theorem bindings_set {v : Tagged} (hv : v.isEmpty = false) (s : Store) (name : String) :
    (s.set name v).bindings = Assoc.put name v s.bindings := by
  rw [set, dif_neg (by simp [hv])]
  rfl

/-- Setting new, distinct names appends their bindings as they are. -/
theorem bindings_foldl_set (bs : List (String × Tagged)) (s : Store)
    (hnodup : (Assoc.names (s.bindings ++ bs)).Nodup) (hbs : ∀ b ∈ bs, b.2.isEmpty = false) :
    (bs.foldl (fun s b => s.set b.1 b.2) s).bindings = s.bindings ++ bs := by
  induction bs generalizing s with
  | nil => simp
  | cons b bs ih =>
    obtain ⟨n, v⟩ := b
    have hv : v.isEmpty = false := hbs (n, v) List.mem_cons_self
    have hn : n ∉ Assoc.names s.bindings := by
      intro hmem
      rw [Assoc.names_append, List.nodup_append] at hnodup
      exact hnodup.2.2 n hmem n (by simp) rfl
    have hset : (s.set n v).bindings = s.bindings ++ [(n, v)] := by
      rw [bindings_set hv]
      exact Assoc.put_of_not_mem hn v
    rw [List.append_cons, ← hset] at hnodup ⊢
    exact ih (s.set n v) hnodup fun b hb => hbs b (List.mem_cons_of_mem _ hb)

/-- Bindings of different names to values that are not empty are kept by `ofList` as they stand.
-/
theorem bindings_ofList {bs : List (String × Tagged)} (hnodup : (Assoc.names bs).Nodup)
    (hbs : ∀ b ∈ bs, b.2.isEmpty = false) : (ofList bs).bindings = bs :=
  bindings_foldl_set bs empty hnodup hbs

theorem names_erase (s : Store) (name : String) :
    (s.erase name).names = s.names.filter (· ≠ name) :=
  Assoc.names_erase name s.bindings

theorem names_put (s : Store) (name : String) (v : Tagged) (h : v.isEmpty = false) :
    (s.put name v h).names = if name ∈ s.names then s.names else s.names ++ [name] :=
  Assoc.names_put name v s.bindings

/-- The names after `set`: one less for an empty value, at most one more, at the end, for any
other. -/
theorem names_set (s : Store) (name : String) (v : Tagged) :
    (s.set name v).names =
      if v.isEmpty then s.names.filter (· ≠ name)
      else if name ∈ s.names then s.names else s.names ++ [name] := by
  unfold set
  split
  · exact names_erase s name
  · exact names_put s name v _

theorem names_insertNew (s : Store) (name : String) (v : Tagged) :
    (s.insertNew name v).names =
      if name ∈ s.names ∨ v.isEmpty then s.names else s.names ++ [name] := by
  unfold insertNew
  split
  · rename_i h
    simp [contains_iff.1 h]
  · rename_i h
    have hn : name ∉ s.names := fun hm => h (contains_iff.2 hm)
    split
    · rename_i hv
      simp [hv]
    · rename_i hv
      rw [names_put, if_neg hn, if_neg]
      simp [hn, hv]

end Store

end BusScript
