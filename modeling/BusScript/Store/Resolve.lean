import BusScript.Store.Basic

/-!
# Resolving references

A name is looked up in a list of scopes, innermost first; the first scope that
binds it wins. A value tagged `var` is followed again from the innermost
scope, until a value that is no reference is found or a name is unbound. A
name that comes up a second time means that the path never ends, and the
names walked so far are the evidence.

`follow` carries the names it has passed. Each step passes a bound name that
was not passed before, so the bound names that are still unpassed decrease.
What it finds is never itself a reference: `isVar_of_eval`.
-/

namespace BusScript

/-- The scopes of a look-up, innermost first. -/
abbrev Scopes := List Store

/-- A path of references that comes back to a name on it, which is also the last name of its
`chain`. -/
structure Cycle where
  chain : List String
deriving Repr, DecidableEq

/-- The wording of an error, with all names of the `chain`. -/
def Cycle.message (c : Cycle) : String :=
  "Cyclic variable reference: " ++ " -> ".intercalate c.chain

namespace Scopes

/-- The value of `name` in the first scope that binds it. -/
def lookup? (scopes : Scopes) (name : String) : Option Tagged :=
  scopes.findSome? (·.get? name)

/-- All names that some scope binds, with repetitions. -/
def boundNames (scopes : Scopes) : List String :=
  scopes.flatMap Store.names

theorem mem_boundNames_of_lookup? {scopes : Scopes} {name : String} {v : Tagged}
    (h : lookup? scopes name = some v) : name ∈ boundNames scopes := by
  obtain ⟨s, hs, hv⟩ := List.exists_of_findSome?_eq_some h
  exact List.mem_flatMap.2 ⟨s, hs, Store.mem_names_of_get? hv⟩

/-- The `boundNames` that a path has not passed. Their number is what `follow` decreases. -/
def unpassed (scopes : Scopes) (passed : List String) : List String :=
  (boundNames scopes).filter (· ∉ passed)

/-- Passing a bound name that was not passed leaves fewer names `unpassed`. -/
theorem length_unpassed_lt {scopes : Scopes} {passed : List String} {name : String}
    (hb : name ∈ boundNames scopes) (hp : name ∉ passed) :
    (unpassed scopes (passed ++ [name])).length < (unpassed scopes passed).length := by
  have hsub : unpassed scopes (passed ++ [name]) =
      (unpassed scopes passed).filter (· ≠ name) := by
    simp only [unpassed, List.filter_filter]
    congr 1
    funext x
    simp [and_comm]
  rw [hsub]
  refine List.length_filter_lt_length_iff_exists.2 ⟨name, ?_, by simp⟩
  simp [unpassed, hb, hp]

/-- Follow references from `name`, having passed the names `passed`. Coming back to one of them
is a `Cycle`, and each name is passed once, so the search ends. -/
def follow (scopes : Scopes) (passed : List String) (name : String) (fresh : name ∉ passed) :
    Except Cycle (Option Tagged) :=
  match h : lookup? scopes name with
  | none => .ok none
  | some v =>
    if v.isVar then
      if again : v.payload ∈ passed ++ [name] then
        .error ⟨passed ++ [name, v.payload]⟩
      else
        have := length_unpassed_lt (mem_boundNames_of_lookup? h) fresh
        follow scopes (passed ++ [name]) v.payload again
    else .ok (some v)
termination_by (unpassed scopes passed).length

/-- The value that `name` resolves to (`follow`); there is none if a name on the way is unbound.
-/
def resolve (scopes : Scopes) (name : String) : Except Cycle (Option Tagged) :=
  follow scopes [] name (by simp)

/-- The value of an expression: a reference is resolved by `resolve`, all else stands for
itself. -/
def eval (scopes : Scopes) (v : Tagged) : Except Cycle (Option Tagged) :=
  if v.isVar then resolve scopes v.payload else .ok (some v)

/-! ### One step along a reference -/

theorem follow_of_lookup?_eq_none {scopes : Scopes} {passed : List String} {name : String}
    {fresh : name ∉ passed} (h : lookup? scopes name = none) :
    follow scopes passed name fresh = .ok none := by
  rw [follow]
  split
  · rfl
  · rename_i hsome
    rw [h] at hsome
    cases hsome

/-- One step of `follow` at a name that is bound: to the end at a value, to a `Cycle` at a name
that was passed, and on otherwise. -/
theorem follow_of_lookup? {scopes : Scopes} {passed : List String} {name : String}
    {fresh : name ∉ passed} {v : Tagged} (h : lookup? scopes name = some v) :
    follow scopes passed name fresh =
      if v.isVar then
        if again : v.payload ∈ passed ++ [name] then .error ⟨passed ++ [name, v.payload]⟩
        else follow scopes (passed ++ [name]) v.payload again
      else .ok (some v) := by
  rw [follow]
  split
  · rename_i hnone
    rw [h] at hnone
    cases hnone
  · rename_i hsome
    rw [h] at hsome
    cases hsome
    rfl

/-! ### What references lead to -/

/-- Where `follow` ends with a value, the value is no reference. -/
theorem isVar_of_follow {scopes : Scopes} {passed : List String} {name : String}
    {fresh : name ∉ passed} {v : Tagged} (h : follow scopes passed name fresh = .ok (some v)) :
    v.isVar = false := by
  fun_induction follow scopes passed name fresh with
  | case1 => simp at h
  | case2 => simp at h
  | case3 passed name fresh u hu hvar hagain hlt ih => exact ih h
  | case4 passed name fresh u hu hvar =>
    simp only [Except.ok.injEq, Option.some.injEq] at h
    simpa [h] using hvar

/-- The value of an expression, as `eval` gives it, is never a reference. -/
theorem isVar_of_eval {scopes : Scopes} {u v : Tagged} (h : eval scopes u = .ok (some v)) :
    v.isVar = false := by
  unfold eval at h
  split at h
  · exact isVar_of_follow h
  · rename_i hu
    simp only [Except.ok.injEq, Option.some.injEq] at h
    simpa [h] using hu

theorem resolve_of_lookup?_eq_none {scopes : Scopes} {name : String}
    (h : lookup? scopes name = none) : resolve scopes name = .ok none :=
  follow_of_lookup?_eq_none h

/-- A value that is no reference is what `resolve` finds under its name. -/
theorem resolve_of_lookup? {scopes : Scopes} {name : String} {v : Tagged}
    (h : lookup? scopes name = some v) (hv : v.isVar = false) :
    resolve scopes name = .ok (some v) := by
  rw [resolve, follow_of_lookup? h, if_neg (by simp [hv])]

/-- The payload of the value that `resolve` gives. -/
def resolveText (scopes : Scopes) (name : String) : Except Cycle (Option String) :=
  (resolve scopes name).map (·.map Tagged.payload)

/-- The payload of an expression's value (`eval`). -/
def evalText (scopes : Scopes) (v : Tagged) : Except Cycle (Option String) :=
  (eval scopes v).map (·.map Tagged.payload)

end Scopes

end BusScript
