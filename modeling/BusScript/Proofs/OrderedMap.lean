import BusScript.Store.Basic
import Mathlib.Logic.Function.Basic

/-!
# Stores as ordered maps

An ordered map has names in an order, and a value for each of them. Its operations are
stated on these two parts and not on a list of bindings: what becomes of the order, and
what of the values. `Store.toMap` forgets how a store is made up, and every operation on
stores is the operation on maps of the same name seen through it (`Store.toMap_set` and its
kin).

A host works with any number of stores at a time. What it may ask for is a `StoreRequest`, and
requests make sense for everything that has the operations of a store (`StoreOps`, and
`EditOps` for those on a single one). A map between two such kinds that respects the operations
respects whole runs of requests (`StoreOps.Hom.run`).
-/

namespace BusScript

/-- Names in an `order`, and the `value` that they are bound to. Nothing is promised of the two
parts. -/
@[ext] structure OrderedMap where
  order : List String
  value : String → Option Tagged

namespace OrderedMap

/-- The map without a name. -/
def empty : OrderedMap := ⟨[], fun _ => none⟩

/-- Bind `name`: in its place if it is bound already, else at the end. -/
def put (m : OrderedMap) (name : String) (v : Tagged) : OrderedMap where
  order := if m.value name = none then m.order ++ [name] else m.order
  value := Function.update m.value name (some v)

/-- Delete `name` from the order, and what it is bound to. -/
def delete (m : OrderedMap) (name : String) : OrderedMap where
  order := m.order.filter (· ≠ name)
  value := Function.update m.value name none

/-- Bind `name`, or `delete` it if the value is empty. -/
def set (m : OrderedMap) (name : String) (v : Tagged) : OrderedMap :=
  if v.isEmpty then m.delete name else m.put name v

/-- Bind `name` only if it is absent and the value is not empty. -/
def insert (m : OrderedMap) (name : String) (v : Tagged) : OrderedMap :=
  if m.value name = none ∧ v.isEmpty = false then m.put name v else m

/-- Insert the names of `other` that are absent, in its order. -/
def insertAll (m other : OrderedMap) : OrderedMap where
  order := m.order ++ other.order.filter (m.value · = none)
  value name := (m.value name).or (other.value name)

end OrderedMap

/-! ### The map of a store -/

namespace Store

/-- What a `Store` says of names and values. -/
def toMap (s : Store) : OrderedMap := ⟨s.names, s.get?⟩

theorem toMap_empty : empty.toMap = .empty := rfl

theorem toMap_erase (s : Store) (name : String) : (s.erase name).toMap = s.toMap.delete name := by
  ext x
  · simp [toMap, OrderedMap.delete, names_erase]
  · simp [toMap, OrderedMap.delete, get?_erase, Function.update_apply]

theorem toMap_put (s : Store) (name : String) {v : Tagged} (h : v.isEmpty = false) :
    (s.put name v h).toMap = s.toMap.put name v := by
  refine OrderedMap.ext ?_ (funext fun x => ?_)
  · simp only [toMap, OrderedMap.put, names_put, get?_eq_none_iff, ite_not]
  · simp only [toMap, OrderedMap.put, get?_put, Function.update_apply]

theorem toMap_set (s : Store) (name : String) (v : Tagged) :
    (s.set name v).toMap = s.toMap.set name v := by
  unfold set OrderedMap.set
  split
  · exact toMap_erase s name
  · exact toMap_put s name _

theorem toMap_insertNew (s : Store) (name : String) (v : Tagged) :
    (s.insertNew name v).toMap = s.toMap.insert name v := by
  unfold insertNew OrderedMap.insert
  split
  · rename_i hbound
    rw [if_neg]
    rintro ⟨hnone, -⟩
    exact get?_eq_none_iff.1 hnone (contains_iff.1 hbound)
  · rename_i hfree
    have hnone : s.toMap.value name = none :=
      get?_eq_none_iff.2 fun hmem => hfree (contains_iff.2 hmem)
    split
    · rename_i hv
      simp [hv]
    · rename_i hv
      rw [if_pos ⟨hnone, by simpa using hv⟩]
      exact toMap_put s name _

/-- The names that a fold of `insertNew` adds are those that were free, in their order. -/
theorem names_foldl_insertNew (bs : List (String × Tagged)) (s : Store)
    (hnodup : (Assoc.names bs).Nodup) (hbs : ∀ b ∈ bs, b.2.isEmpty = false) :
    (bs.foldl (fun s b => s.insertNew b.1 b.2) s).names =
      s.names ++ (Assoc.names bs).filter (· ∉ s.names) := by
  induction bs generalizing s with
  | nil => simp
  | cons b bs ih =>
      obtain ⟨name, v⟩ := b
      rw [Assoc.names_cons, List.nodup_cons] at hnodup
      have hv : v.isEmpty = false := hbs (name, v) List.mem_cons_self
      rw [List.foldl_cons, ih _ hnodup.2 fun b hb => hbs b (List.mem_cons_of_mem _ hb),
        names_insertNew, Assoc.names_cons]
      by_cases hmem : name ∈ s.names
      · simp [hmem]
      · -- the rest has other names, so that it does not matter that this one is taken now
        have hrest : (Assoc.names bs).filter (· ∉ s.names ++ [name]) =
            (Assoc.names bs).filter (· ∉ s.names) := by
          refine List.filter_congr fun x hx => ?_
          have hne : x ≠ name := by
            rintro rfl
            exact hnodup.1 hx
          simp [hne]
        rw [if_neg (by simp [hmem, hv]), hrest, List.filter_cons_of_pos (by simpa using hmem),
          List.append_assoc, List.singleton_append]

theorem names_merge (s t : Store) :
    (s.merge t).names = s.names ++ t.names.filter (· ∉ s.names) :=
  names_foldl_insertNew t.bindings s t.nodup t.nonempty

/-- A merge of stores is `insertAll` of their maps. -/
theorem toMap_merge (s t : Store) : (s.merge t).toMap = s.toMap.insertAll t.toMap := by
  refine OrderedMap.ext ?_ (funext fun x => get?_merge s t x)
  simp only [toMap, OrderedMap.insertAll, names_merge, get?_eq_none_iff]

/-- A store has the look-ups, the names and the size of the ordered map `m`. -/
structure Behaves (s : Store) (m : OrderedMap) : Prop where
  contains : ∀ x, s.contains x = (m.value x).isSome
  get? : ∀ x, s.get? x = m.value x
  getText? : ∀ x, s.getText? x = (m.value x).map Tagged.render
  names : s.names = m.order
  size : s.size = m.order.length

theorem behaves_toMap (s : Store) : s.Behaves s.toMap where
  contains _ := rfl
  get? _ := rfl
  getText? _ := rfl
  names := rfl
  size := by rw [toMap, names, Assoc.names, List.length_map, size]

end Store

/-! ### One store -/

/-- What a host asks of one store. -/
inductive StoreEdit where
  /-- Bind a name by `set`. -/
  | set (name : String) (value : Literal)
  /-- Bind a name unless it is bound, by `insertNew`. -/
  | add (name : String) (value : Literal)
  /-- Remove a name by `erase`. -/
  | remove (name : String)

/-- The operations that change one store, or what stands for it: `StoreEdit` asks for them. -/
structure EditOps (α : Type) where
  set : α → String → Tagged → α
  add : α → String → Tagged → α
  remove : α → String → α

namespace EditOps

variable {α β : Type}

/-- Do what a `StoreEdit` asks for. A value that has no tagged form is refused, and nothing
changes. -/
def edit (k : EditOps α) (s : α) : StoreEdit → α
  | .set name value =>
    match value.toTagged with
    | .ok v => k.set s name v
    | .error _ => s
  | .add name value =>
    match value.toTagged with
    | .ok v => k.add s name v
    | .error _ => s
  | .remove name => k.remove s name

/-- The operations `k` and `k'` are the same on both sides of the map `f`. -/
structure Hom (k : EditOps α) (k' : EditOps β) (f : α → β) : Prop where
  set : ∀ s name v, f (k.set s name v) = k'.set (f s) name v
  add : ∀ s name v, f (k.add s name v) = k'.add (f s) name v
  remove : ∀ s name, f (k.remove s name) = k'.remove (f s) name

theorem Hom.edit {k : EditOps α} {k' : EditOps β} {f : α → β} (h : Hom k k' f) (s : α)
    (e : StoreEdit) : f (k.edit s e) = k'.edit (f s) e := by
  cases e with
  | set name value =>
      simp only [EditOps.edit]
      cases value.toTagged with
      | ok v => exact h.set s name v
      | error _ => rfl
  | add name value =>
      simp only [EditOps.edit]
      cases value.toTagged with
      | ok v => exact h.add s name v
      | error _ => rfl
  | remove name => exact h.remove s name

end EditOps

/-! ### Any number of stores -/

/-- The operations of stores, or of what stands for them: `StoreRequest` asks for them. -/
structure StoreOps (α : Type) extends EditOps α where
  empty : α
  addAll : α → α → α

/-- The operations of `Store`, which are executed. -/
def Store.ops : StoreOps Store where
  set := .set
  add := .insertNew
  remove := .erase
  empty := .empty
  addAll := .merge

/-- The operations of `OrderedMap`, by which those of `Store` are explained. -/
def OrderedMap.ops : StoreOps OrderedMap where
  set := .set
  add := .insert
  remove := .delete
  empty := .empty
  addAll := .insertAll

/-- What a host asks for. Its stores are numbered in the order in which they were made. -/
inductive StoreRequest where
  /-- Make a store without a binding. -/
  | make
  /-- Change a store. -/
  | edit (store : Nat) (change : StoreEdit)
  /-- Bind the names of another store that are free. -/
  | addAll (store other : Nat)
  /-- Make a store with the bindings of another one. -/
  | copy (store : Nat)

/-- The store that a request changes, if it changes one: `make` and `copy` change none. -/
def StoreRequest.target? : StoreRequest → Option Nat
  | .edit i _ | .addAll i _ => some i
  | .make | .copy _ => none

namespace StoreOps

variable {α β : Type}

/-- What a `StoreRequest` does to the stores `l`. -/
def perform (k : StoreOps α) (l : List α) : StoreRequest → List α
  | .make => l ++ [k.empty]
  | .edit i e => l.modify i (k.edit · e)
  | .addAll i j =>
    match l[j]? with
    | some other => l.modify i (k.addAll · other)
    | none => l
  | .copy i => l ++ l[i]?.toList

/-- The stores after the requests `rs`, none being there at first. -/
def run (k : StoreOps α) (rs : List StoreRequest) : List α := rs.foldl k.perform []

/-- A request changes no store but its `target?`. -/
theorem getElem?_perform (k : StoreOps α) {l : List α} {r : StoreRequest} {i : Nat} {a : α}
    (hr : r.target? ≠ some i) (hi : l[i]? = some a) : (k.perform l r)[i]? = some a := by
  have hlt : i < l.length := (List.getElem?_eq_some_iff.1 hi).1
  have hmodify : ∀ {j : Nat} (f : α → α), some j ≠ some i → (l.modify j f)[i]? = some a := by
    intro j f hj
    rw [List.getElem?_modify_ne f l fun hji => hj (congrArg some hji), hi]
  cases r with
  | make => rw [perform, List.getElem?_append_left hlt, hi]
  | edit j e => exact hmodify _ hr
  | addAll j other =>
      cases hother : l[other]? with
      | some t => simpa only [perform, hother] using hmodify _ hr
      | none => simpa only [perform, hother] using hi
  | copy j => rw [perform, List.getElem?_append_left hlt, hi]

/-- The operations are the same on both sides of the map `f`, `addAll` included. -/
structure Hom (k : StoreOps α) (k' : StoreOps β) (f : α → β) : Prop
    extends EditOps.Hom k.toEditOps k'.toEditOps f where
  empty : f k.empty = k'.empty
  addAll : ∀ s t, f (k.addAll s t) = k'.addAll (f s) (f t)

variable {k : StoreOps α} {k' : StoreOps β} {f : α → β}

theorem map_modify (l : List α) (i : Nat) {g : α → α} {g' : β → β} (h : ∀ a, f (g a) = g' (f a)) :
    (l.modify i g).map f = (l.map f).modify i g' := by
  refine List.ext_getElem? fun j => ?_
  simp only [List.getElem?_map, List.getElem?_modify]
  cases l[j]? with
  | none => rfl
  | some a => by_cases hij : i = j <;> simp [hij, h]

theorem Hom.perform (h : Hom k k' f) (l : List α) (r : StoreRequest) :
    (k.perform l r).map f = k'.perform (l.map f) r := by
  cases r with
  | make => simp [StoreOps.perform, h.empty]
  | edit i e => exact map_modify l i fun s => h.edit s e
  | addAll i j =>
      cases hj : l[j]? with
      | none => simp only [StoreOps.perform, hj, List.getElem?_map, Option.map_none]
      | some t =>
          simp only [StoreOps.perform, hj, List.getElem?_map, Option.map_some]
          exact map_modify l i fun s => h.addAll s t
  | copy i => cases hi : l[i]? <;> simp [StoreOps.perform, hi]

theorem Hom.foldl (h : Hom k k' f) (rs : List StoreRequest) (l : List α) :
    (rs.foldl k.perform l).map f = rs.foldl k'.perform (l.map f) := by
  induction rs generalizing l with
  | nil => rfl
  | cons r rs ih => rw [List.foldl_cons, List.foldl_cons, ih, h.perform]

/-- What `f` respects for each operation it respects for all requests. -/
theorem Hom.run (h : Hom k k' f) (rs : List StoreRequest) : (k.run rs).map f = k'.run rs :=
  h.foldl rs []

end StoreOps

theorem Store.hom_toMap : StoreOps.Hom Store.ops OrderedMap.ops Store.toMap where
  set := Store.toMap_set
  add := Store.toMap_insertNew
  remove := Store.toMap_erase
  empty := Store.toMap_empty
  addAll := Store.toMap_merge

end BusScript
