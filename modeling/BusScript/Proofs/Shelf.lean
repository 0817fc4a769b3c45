import BusScript.Proofs.OrderedMap
import Mathlib.Data.List.Forall2

/-!
# Stores that are kept in tables

A host holds stores, a store holds a table, and an operation on a store changes its table in
place. `Store` is a value that has its invariant in its type. Here tables are plain lists
that promise nothing, at places of a `Shelf`, and a store is no more than the place of its
table: were two stores at one place, what is asked of the one would happen to the other.

* `Shelf.table?_update` — if no place is taken twice, a change of a table is seen by one store;
* `Shelf.Holds.addEntries` — a table is not disturbed while it is read for another store, not
  even if that store is its own;
* `Shelf.Holds.perform` — whatever is asked for, the shelf goes on holding the stores that the
  operations on values give.

With the maps by which these values are explained, `requests_modelled` says what a host sees
of its stores after any requests.
-/

namespace BusScript

/-! ### Tables -/

/-- A binding of `name` to `value`, as it stands in a table. -/
structure Binding where
  name : String
  value : Tagged
deriving Repr, DecidableEq

/-- Bindings under keys, in the order in which the keys were taken: a `Binding` knows its own
name. -/
abbrev Table := List (String × Binding)

namespace Table

/-- Bind `name`, or remove it if the value is empty. -/
def set (t : Table) (name : String) (v : Tagged) : Table :=
  if v.isEmpty then Assoc.erase name t else Assoc.put name ⟨name, v⟩ t

/-- Put the binding `b` under its name unless there is one, or the value is empty. -/
def add (t : Table) (b : Binding) : Table :=
  if b.value.isEmpty then t
  else if (t.lookup b.name).isSome then t
  else t ++ [(b.name, b)]

/-- The operations that change a `Table` in place. -/
def ops : EditOps Table where
  set := set
  add t name v := t.add ⟨name, v⟩
  remove t name := Assoc.erase name t

/-- Keys are distinct, every binding is under its name, and no value is empty. -/
structure Sound (t : Table) : Prop where
  distinct : (Assoc.names t).Nodup
  own : ∀ e ∈ t, e.2.name = e.1
  nonempty : ∀ e ∈ t, e.2.value.isEmpty = false

end Table

namespace Store

/-- The `Binding` of `b` as it is kept under its name. -/
def entry (b : String × Tagged) : String × Binding := (b.1, ⟨b.1, b.2⟩)

/-- The `Table` in which a store is kept. -/
def table (s : Store) : Table := s.bindings.map entry

theorem names_map_entry (bs : List (String × Tagged)) :
    Assoc.names (bs.map entry) = Assoc.names bs := by
  simp [Assoc.names, entry]

theorem sound_table (s : Store) : s.table.Sound where
  distinct := by
    rw [table, names_map_entry]
    exact s.nodup
  own e he := by
    obtain ⟨b, -, rfl⟩ := List.mem_map.1 he
    rfl
  nonempty e he := by
    obtain ⟨b, hb, rfl⟩ := List.mem_map.1 he
    exact s.nonempty b hb

theorem lookup_map_entry (bs : List (String × Tagged)) (name : String) :
    ((bs.map entry).lookup name).isSome = (bs.lookup name).isSome := by
  rw [Bool.eq_iff_iff, Option.isSome_iff_ne_none, Option.isSome_iff_ne_none, ne_eq, ne_eq,
    Assoc.lookup_eq_none_iff, Assoc.lookup_eq_none_iff, names_map_entry]

theorem put_map_entry (bs : List (String × Tagged)) (name : String) (v : Tagged) :
    Assoc.put name ⟨name, v⟩ (bs.map entry) = (Assoc.put name v bs).map entry := by
  induction bs with
  | nil => rfl
  | cons b bs ih =>
      obtain ⟨n, w⟩ := b
      by_cases hn : n = name
      · simp [Assoc.put, entry, hn]
      · simpa [Assoc.put, entry, hn] using ih

theorem table_erase (s : Store) (name : String) :
    (s.erase name).table = Assoc.erase name s.table := by
  simp only [table, erase, Assoc.erase, List.filter_map]
  rfl

theorem table_put (s : Store) (name : String) {v : Tagged} (h : v.isEmpty = false) :
    (s.put name v h).table = Assoc.put name ⟨name, v⟩ s.table :=
  (put_map_entry s.bindings name v).symm

theorem table_set (s : Store) (name : String) (v : Tagged) :
    (s.set name v).table = s.table.set name v := by
  unfold set Table.set
  split
  · exact table_erase s name
  · exact table_put s name _

/-- What `insertNew` does to a store, `Table.add` does to its table. -/
theorem table_insertNew (s : Store) (name : String) (v : Tagged) :
    (s.insertNew name v).table = s.table.add ⟨name, v⟩ := by
  have hbound : (s.table.lookup name).isSome = s.contains name :=
    lookup_map_entry s.bindings name
  unfold insertNew Table.add
  rw [hbound]
  by_cases hname : s.contains name = true
  · simp [hname]
  · rw [if_neg hname, if_neg hname]
    split
    · rfl
    · have hfree : name ∉ Assoc.names s.table := by
        rw [table, names_map_entry]
        exact fun hmem => hname (contains_iff.2 hmem)
      rw [table_put, Assoc.put_of_not_mem hfree]

theorem hom_table : EditOps.Hom ops.toEditOps Table.ops table where
  set := table_set
  add := table_insertNew
  remove := table_erase

theorem insertNew_of_mem {s : Store} {name : String} (h : name ∈ s.names) (v : Tagged) :
    s.insertNew name v = s :=
  if_pos (contains_iff.2 h)

end Store

/-! ### Shelves -/

/-- Tables at their `places`, and the place of the table of each store. Tables that no store has
any more stay where they are. -/
structure Shelf where
  tables : List Table
  places : List Nat

namespace Shelf

/-- The table of the store number `i`. -/
def table? (h : Shelf) (i : Nat) : Option Table := h.places[i]?.bind (h.tables[·]?)

/-- Change the table of the store number `i` by `f`. -/
def update (h : Shelf) (i : Nat) (f : Table → Table) : Shelf :=
  match h.places[i]? with
  | some p => { h with tables := h.tables.modify p f }
  | none => h

/-- Make a store, with a new table. -/
def make (h : Shelf) : Shelf := ⟨h.tables ++ [[]], h.places ++ [h.tables.length]⟩

/-- Make a store and give it a new table with the entries of the store number `i`, in place of
the table that it was made with. -/
def copy (h : Shelf) (i : Nat) : Shelf :=
  match h.table? i with
  | some t => ⟨h.tables ++ [[], t], h.places ++ [h.tables.length + 1]⟩
  | none => h

/-- Add entries to the table of store `i` one after the other, while the table of store `j` is
read. If that table does not keep its size, reading it fails. -/
def addEntries (i j size : Nat) : Shelf → Table → Option Shelf
  | h, [] => some h
  | h, e :: rest =>
    let h := h.update i (·.add e.2)
    if (h.table? j).map List.length = some size then addEntries i j size h rest else none

/-- Add the entries of the store number `j` to the store number `i`, by `addEntries`. -/
def addAll (h : Shelf) (i j : Nat) : Option Shelf :=
  match h.table? j with
  | some t => addEntries i j t.length h t
  | none => some h

/-- Do what a `StoreRequest` asks for. There is no shelf if a table changes its size while it is
read. -/
def perform (h : Shelf) : StoreRequest → Option Shelf
  | .make => some h.make
  | .edit i e => some (h.update i (Table.ops.edit · e))
  | .addAll i j => h.addAll i j
  | .copy i => some (h.copy i)

/-- Do what the requests ask for by `perform`, one after the other. -/
def run (h : Shelf) : List StoreRequest → Option Shelf
  | [] => some h
  | r :: rs => (h.perform r).bind (run · rs)

/-- The shelf without a store. -/
def empty : Shelf := ⟨[], []⟩

/-- The `stores` of a shelf are at different places, and kept in their tables. -/
structure Holds (h : Shelf) (stores : List Store) : Prop where
  distinct : h.places.Nodup
  count : h.places.length = stores.length
  tables : ∀ i, h.table? i = stores[i]?.map Store.table

variable {h : Shelf} {stores : List Store} {i j : Nat}

/-! ### Changes of a table -/

/-- If no place is taken twice, one store sees that a table is changed by `update`. -/
theorem table?_update (hdistinct : h.places.Nodup) (i : Nat) (f : Table → Table) (k : Nat) :
    (h.update i f).table? k = if i = k then (h.table? k).map f else h.table? k := by
  unfold update
  cases hi : h.places[i]? with
  | none =>
      by_cases hik : i = k
      · subst hik
        simp [table?, hi]
      · simp [hik]
  | some p =>
      by_cases hik : i = k
      · subst hik
        simp [table?, hi]
      · have hother : h.places[k]? ≠ some p := by
          rw [← hi]
          intro hplace
          have hlt : i < h.places.length := (List.getElem?_eq_some_iff.1 hi).1
          exact hik ((List.getElem?_inj hlt hdistinct).1 hplace.symm)
        simp only [table?, hik, if_false]
        cases hk : h.places[k]? with
        | none => rfl
        | some q =>
            have hne : p ≠ q := fun hpq => hother (hpq ▸ hk)
            exact List.getElem?_modify_ne f h.tables hne

theorem update_eq_self {f : Table → Table} (hf : ∀ t, h.table? i = some t → f t = t) :
    h.update i f = h := by
  unfold update
  cases hi : h.places[i]? with
  | none => rfl
  | some p =>
      have hmodify : h.tables.modify p f = h.tables := by
        refine List.ext_getElem? fun q => ?_
        rw [List.getElem?_modify]
        by_cases hpq : p = q
        · subst hpq
          cases ht : h.tables[p]? with
          | none => rfl
          | some t => simp [hf t (by simp [table?, hi, ht])]
        · simp [hpq]
      simp [hmodify]

/-- A change `f` of a table that is the change `g` of a store can be seen as that. -/
theorem Holds.update (hs : h.Holds stores) {f : Table → Table} {g : Store → Store}
    (hfg : ∀ s : Store, (g s).table = f s.table) (i : Nat) :
    (h.update i f).Holds (stores.modify i g) where
  distinct := by
    unfold Shelf.update
    cases h.places[i]? <;> exact hs.distinct
  count := by
    rw [List.length_modify, ← hs.count]
    unfold Shelf.update
    cases h.places[i]? <;> rfl
  tables k := by
    rw [table?_update hs.distinct, hs.tables, List.getElem?_modify]
    by_cases hik : i = k <;> cases stores[k]? <;> simp [hik, hfg]

/-! ### New stores -/

theorem Holds.place_lt (hs : h.Holds stores) {p : Nat} (hp : p ∈ h.places) :
    p < h.tables.length := by
  obtain ⟨i, hi⟩ := List.mem_iff_getElem?.1 hp
  have hlt : i < stores.length := hs.count ▸ (List.getElem?_eq_some_iff.1 hi).1
  have htable := hs.tables i
  rw [table?, hi, Option.bind_some, List.getElem?_eq_getElem hlt, Option.map_some] at htable
  exact (List.getElem?_eq_some_iff.1 htable).1

/-- A store at a place `p` that was not there before joins the others. -/
theorem Holds.join (hs : h.Holds stores) {more : List Table} {p : Nat} {s : Store}
    (hp : h.tables.length ≤ p) (hs' : (h.tables ++ more)[p]? = some s.table) :
    (⟨h.tables ++ more, h.places ++ [p]⟩ : Shelf).Holds (stores ++ [s]) where
  distinct := by
    rw [List.nodup_append]
    refine ⟨hs.distinct, by simp, ?_⟩
    rintro q hq _ hmem rfl
    have hlt := hs.place_lt hq
    rw [List.mem_singleton.1 hmem] at hlt
    omega
  count := by simp [hs.count]
  tables i := by
    by_cases hi : i < h.places.length
    · have hlt := hs.place_lt (List.getElem_mem hi)
      have hold := hs.tables i
      rw [table?, List.getElem?_eq_getElem hi, Option.bind_some] at hold
      rw [table?, List.getElem?_append_left hi, List.getElem?_eq_getElem hi, Option.bind_some,
        List.getElem?_append_left hlt, hold, List.getElem?_append_left (hs.count ▸ hi)]
    · rw [table?, List.getElem?_append_right (by omega),
        List.getElem?_append_right (by rw [← hs.count]; omega), ← hs.count]
      cases hrest : i - h.places.length with
      | zero => exact hs'
      | succ n => rfl

/-! ### Reading a table while another one changes -/

/-- A table that is read by `addEntries` stays as it is: either another one is changed, or all
of its own names are found there. -/
theorem Holds.addEntries (hs : h.Holds stores) {t : Store} (hj : stores[j]? = some t)
    {bs : List (String × Tagged)} (hbs : ∀ b ∈ bs, b.1 ∈ t.names) (i : Nat) :
    ∃ h', Shelf.addEntries i j t.table.length h (bs.map Store.entry) = some h' ∧
      h'.Holds (stores.modify i fun s => bs.foldl (fun s b => s.insertNew b.1 b.2) s) := by
  induction bs generalizing h stores with
  | nil =>
      refine ⟨h, rfl, ?_⟩
      show h.Holds (stores.modify i id)
      rwa [List.modify_id]
  | cons b bs ih =>
      have hstep : (h.update i (·.add ⟨b.1, b.2⟩)).Holds
          (stores.modify i (·.insertNew b.1 b.2)) :=
        hs.update (fun s => Store.table_insertNew s b.1 b.2) i
      have hread : (stores.modify i (·.insertNew b.1 b.2))[j]? = some t := by
        rw [List.getElem?_modify, hj]
        by_cases hij : i = j
        · simp [hij, Store.insertNew_of_mem (hbs b List.mem_cons_self)]
        · simp [hij]
      have hsize : ((h.update i (·.add ⟨b.1, b.2⟩)).table? j).map List.length =
          some t.table.length := by
        rw [hstep.tables, hread]
        rfl
      obtain ⟨h', hrest, hholds⟩ :=
        ih hstep hread fun c hc => hbs c (List.mem_cons_of_mem b hc)
      refine ⟨h', ?_, ?_⟩
      · simp only [List.map_cons, Shelf.addEntries, Store.entry, hsize, if_true]
        exact hrest
      · rw [List.modify_modify_eq] at hholds
        exact hholds

theorem Holds.addAll (hs : h.Holds stores) (i j : Nat) :
    ∃ h', h.addAll i j = some h' ∧ h'.Holds (Store.ops.perform stores (.addAll i j)) := by
  have htable := hs.tables j
  cases hj : stores[j]? with
  | none =>
      simp only [Shelf.addAll, StoreOps.perform, htable, hj, Option.map_none]
      exact ⟨h, rfl, hs⟩
  | some t =>
      simp only [Shelf.addAll, StoreOps.perform, htable, hj, Option.map_some]
      exact hs.addEntries hj (fun b hb => List.mem_map_of_mem hb) i

/-! ### Requests -/

theorem Holds.make (hs : h.Holds stores) : h.make.Holds (stores ++ [Store.empty]) :=
  hs.join (Nat.le_refl _) (by simp [Store.table, Store.empty])

theorem Holds.copy (hs : h.Holds stores) (i : Nat) :
    (h.copy i).Holds (stores ++ stores[i]?.toList) := by
  have htable := hs.tables i
  cases hi : stores[i]? with
  | none =>
      rw [hi, Option.map_none] at htable
      simpa [Shelf.copy, htable] using hs
  | some s =>
      rw [hi, Option.map_some] at htable
      rw [Shelf.copy, htable]
      exact hs.join (Nat.le_succ _) (by simp)

/-- Whatever is asked for is done by `perform`, and the shelf `Holds` what the operations on
values give. -/
theorem Holds.perform (hs : h.Holds stores) (r : StoreRequest) :
    ∃ h', h.perform r = some h' ∧ h'.Holds (Store.ops.perform stores r) := by
  cases r with
  | make => exact ⟨h.make, rfl, hs.make⟩
  | edit i e => exact ⟨_, rfl, hs.update (fun s => Store.hom_table.edit s e) i⟩
  | addAll i j => exact hs.addAll i j
  | copy i => exact ⟨_, rfl, hs.copy i⟩

theorem Holds.run (hs : h.Holds stores) (rs : List StoreRequest) :
    ∃ h', h.run rs = some h' ∧ h'.Holds (rs.foldl Store.ops.perform stores) := by
  induction rs generalizing h stores with
  | nil => exact ⟨h, rfl, hs⟩
  | cons r rs ih =>
      obtain ⟨next, hnext, hholds⟩ := hs.perform r
      obtain ⟨h', hrun, hend⟩ := ih hholds
      exact ⟨h', by rw [Shelf.run, hnext, Option.bind_some, hrun], hend⟩

theorem holds_empty : empty.Holds [] := ⟨by simp [empty], rfl, fun _ => rfl⟩

/-! ### Stores are independent -/

/-- No table but that of the `target?` is changed by a request. -/
theorem Holds.table?_perform (hs : h.Holds stores) {r : StoreRequest} {h' : Shelf} {t : Table}
    (hr : h.perform r = some h') (hi : r.target? ≠ some i) (ht : h.table? i = some t) :
    h'.table? i = some t := by
  obtain ⟨next, hnext, hholds⟩ := hs.perform r
  obtain rfl : next = h' := Option.some.inj (hnext.symm.trans hr)
  rw [hs.tables] at ht
  obtain ⟨s, hs', rfl⟩ := Option.map_eq_some_iff.1 ht
  rw [hholds.tables, Store.ops.getElem?_perform hi hs', Option.map_some]

/-! ### Adding a store again -/

/-- Entries whose names are taken change nothing by `add`. -/
theorem addEntries_eq_self {size : Nat} {es : Table}
    (hsize : (h.table? j).map List.length = some size)
    (hes : ∀ e ∈ es, ∀ t, h.table? i = some t → t.add e.2 = t) :
    addEntries i j size h es = some h := by
  induction es with
  | nil => rfl
  | cons e es ih =>
      rw [addEntries, update_eq_self (hes e List.mem_cons_self), if_pos hsize]
      exact ih fun e' he' => hes e' (List.mem_cons_of_mem e he')

theorem Holds.addAll_eq_self (hs : h.Holds stores)
    (hnames : ∀ s t, stores[i]? = some s → stores[j]? = some t → ∀ x ∈ t.names, x ∈ s.names) :
    h.addAll i j = some h := by
  have htable := hs.tables j
  cases hj : stores[j]? with
  | none => simp only [Shelf.addAll, htable, hj, Option.map_none]
  | some t =>
      rw [hj, Option.map_some] at htable
      rw [Shelf.addAll, htable]
      refine addEntries_eq_self (by rw [htable]; rfl) fun e he table hi => ?_
      rw [hs.tables] at hi
      obtain ⟨s, hs', rfl⟩ := Option.map_eq_some_iff.1 hi
      obtain ⟨b, hb, rfl⟩ := List.mem_map.1 he
      have hmem : b.1 ∈ s.names := hnames s t hs' hj b.1 (List.mem_map_of_mem hb)
      exact (Store.table_insertNew s b.1 b.2).symm.trans
        (congrArg Store.table (Store.insertNew_of_mem hmem b.2))

/-- After `addAll`, all names of the store `j` are there. -/
theorem names_of_addAll {s t : Store}
    (hi : (Store.ops.perform stores (.addAll i j))[i]? = some s)
    (hj : (Store.ops.perform stores (.addAll i j))[j]? = some t) : ∀ x ∈ t.names, x ∈ s.names := by
  intro x hx
  by_cases hij : i = j
  · subst hij
    rw [hi] at hj
    cases hj
    exact hx
  · cases hother : stores[j]? with
    | none =>
        simp only [StoreOps.perform, hother] at hj
        cases hj
    | some u =>
        simp only [StoreOps.perform, hother] at hi hj
        rw [List.getElem?_modify_ne _ _ hij, hother] at hj
        cases hj
        rw [List.getElem?_modify_eq] at hi
        obtain ⟨s, -, rfl⟩ := Option.map_eq_some_iff.1 hi
        show x ∈ (s.merge t).names
        rw [Store.names_merge, List.mem_append, List.mem_filter]
        by_cases hmem : x ∈ s.names
        · exact .inl hmem
        · exact .inr ⟨hx, by simpa using hmem⟩

/-- To repeat an `addAll` changes nothing, since all names are there. -/
theorem Holds.addAll_twice (hs : h.Holds stores) (i j : Nat) :
    (h.addAll i j).bind (·.addAll i j) = h.addAll i j := by
  obtain ⟨h', hfirst, hholds⟩ := hs.addAll i j
  rw [hfirst, Option.bind_some]
  exact hholds.addAll_eq_self fun _ _ => names_of_addAll

/-- What a host sees of its `stores`, and what it may rely on with its next request. -/
structure Reliable (h : Shelf) (stores : List Store) (maps : List OrderedMap) : Prop where
  /-- Names are distinct, and no value is empty (`Sound`). -/
  sound : ∀ i t, h.table? i = some t → t.Sound
  /-- What is kept are the stores that `Store.ops` gives, -/
  tables : ∀ i, h.table? i = stores[i]?.map Store.table
  /-- and each of them `Behaves` as an ordered map. -/
  behaves : List.Forall₂ Store.Behaves stores maps
  /-- Every request is fulfilled by `perform`, and no store is changed by one on another store.
  -/
  independent : ∀ r, ∃ h', h.perform r = some h' ∧
    ∀ i t, r.target? ≠ some i → h.table? i = some t → h'.table? i = some t
  /-- To add a store twice is to add it once. -/
  idempotent : ∀ i j, (h.perform (.addAll i j)).bind (·.perform (.addAll i j)) =
    h.perform (.addAll i j)

theorem Holds.reliable (hs : h.Holds stores) : h.Reliable stores (stores.map Store.toMap) where
  sound i t ht := by
    rw [hs.tables] at ht
    obtain ⟨s, -, rfl⟩ := Option.map_eq_some_iff.1 ht
    exact s.sound_table
  tables := hs.tables
  behaves := by
    rw [List.forall₂_map_right_iff, List.forall₂_same]
    exact fun s _ => s.behaves_toMap
  independent r := by
    obtain ⟨h', hr, -⟩ := hs.perform r
    exact ⟨h', hr, fun i t hi ht => hs.table?_perform hr hi ht⟩
  idempotent := hs.addAll_twice

/-- **Stores are ordered maps.** Whatever is asked of any number of stores, every one of them
has distinct names and no empty value, and its look-ups, names and size are those of the
`OrderedMap` that the same requests give (`Reliable`). A request is never refused halfway,
changes one store at most, copies and their originals being different stores, and adding a store
a second time changes nothing. -/
theorem requests_modelled (rs : List StoreRequest) :
    ∃ h, empty.run rs = some h ∧
      h.Reliable (Store.ops.run rs) (OrderedMap.ops.run rs) := by
  obtain ⟨h, hrun, hholds⟩ := holds_empty.run rs
  refine ⟨h, hrun, ?_⟩
  rw [← Store.hom_toMap.run]
  exact hholds.reliable

-- a copy goes its own way
example :
    (empty.run [.make, .edit 0 (.set "a" (.text "int:1")), .copy 0,
        .edit 1 (.set "a" (.text "int:2"))]).map (fun h => (h.table? 0, h.table? 1)) =
      some (some [("a", ⟨"a", ⟨"int", "1"⟩⟩)], some [("a", ⟨"a", ⟨"int", "2"⟩⟩)]) := by
  decide +kernel

end Shelf

end BusScript
