import BusScript.Store.Resolve
import Mathlib.Data.List.Chain

/-!
# Paths of references

A name that is bound to a reference leads to another name (`next?`), and so on.
Such a path ends at a name that is unbound or bound to a value that is no
reference (`EndsAfter`), or it never ends. This module compares the resolution
of names with the path, for all scopes and whatever shadows what:

* `resolve_eq_ok_iff` — a name resolves to what is found at the end of its path;
* `resolve_eq_error_iff` — it is reported as cyclic exactly if the path does not
  end;
* `comesBack_of_resolve` — the report is then a beginning of the path that
  passes no name twice but its last one, which is all it takes to see that the
  path goes on forever.

There are only as many names to pass as there are bound ones, which bounds both
the steps to the end of a path and the length of a report.
-/

namespace BusScript

namespace Scopes

/-- The name that `name` refers to: its first match is a reference. -/
def next? (scopes : Scopes) (name : String) : Option String :=
  match lookup? scopes name with
  | some v => if v.isVar then some v.payload else none
  | none => none

/-- The name to which a number of references lead, by `next?` each. -/
def walk (scopes : Scopes) : Nat → String → Option String
  | 0, name => some name
  | k + 1, name => (next? scopes name).bind (walk scopes k)

/-- The path from `name` ends after `k` steps, and `found` is found there: a value that is no
reference, or nothing. -/
def EndsAfter (scopes : Scopes) (k : Nat) (name : String) (found : Option Tagged) : Prop :=
  ∃ last, walk scopes k name = some last ∧ next? scopes last = none ∧
    lookup? scopes last = found

/-- The `chain` of names follows the references from `name`, and stops at the first name that it
has passed before. -/
structure ComesBack (scopes : Scopes) (name : String) (chain : List String) : Prop where
  starts : chain.head? = some name
  linked : chain.IsChain fun x y => next? scopes x = some y
  distinct : chain.dropLast.Nodup
  again : ∃ last, chain.getLast? = some last ∧ last ∈ chain.dropLast

variable {scopes : Scopes} {name target last : String} {found found' : Option Tagged} {v : Tagged}
  {j k : Nat}

/-! ### One step along a path -/

theorem next?_of_lookup?_eq_none (h : lookup? scopes name = none) : next? scopes name = none := by
  simp only [next?, h]

theorem next?_of_isVar (h : lookup? scopes name = some v) (hvar : v.isVar = true) :
    next? scopes name = some v.payload := by
  simp only [next?, h, hvar, if_true]

/-- A path has come to its end at a value exactly if `isVar` says that it is no reference. -/
theorem next?_eq_none_iff (h : lookup? scopes name = some v) :
    next? scopes name = none ↔ v.isVar = false := by
  cases hvar : v.isVar with
  | true => simp [next?_of_isVar h hvar]
  | false => simp [next?, h, hvar]

theorem mem_boundNames_of_next? (h : next? scopes name = some target) :
    name ∈ boundNames scopes := by
  cases hv : lookup? scopes name with
  | none =>
      rw [next?_of_lookup?_eq_none hv] at h
      cases h
  | some v => exact mem_boundNames_of_lookup? hv

theorem walk_succ (h : next? scopes name = some target) :
    walk scopes (k + 1) name = walk scopes k target := by
  simp [walk, h]

theorem walk_succ_eq_none (h : next? scopes name = none) : walk scopes (k + 1) name = none := by
  simp [walk, h]

/-! ### Paths that end -/

theorem endsAfter_zero (hnext : next? scopes name = none) (h : lookup? scopes name = found) :
    EndsAfter scopes 0 name found :=
  ⟨name, rfl, hnext, h⟩

/-- A path that goes on by `next?` ends one step later than the path from there. -/
theorem endsAfter_succ (hnext : next? scopes name = some target) :
    EndsAfter scopes (k + 1) name found ↔ EndsAfter scopes k target found := by
  unfold EndsAfter
  rw [walk_succ hnext]

namespace EndsAfter

theorem walk_eq_none (h : EndsAfter scopes k name found) : walk scopes (k + 1) name = none := by
  induction k generalizing name with
  | zero =>
      obtain ⟨last, hwalk, hlast, -⟩ := h
      cases hwalk
      exact walk_succ_eq_none hlast
  | succ k ih =>
      cases hnext : next? scopes name with
      | none => exact walk_succ_eq_none hnext
      | some target =>
          rw [walk_succ hnext]
          exact ih ((endsAfter_succ hnext).1 h)

/-- A path has one end only: `EndsAfter` determines what is found. -/
theorem unique (h : EndsAfter scopes j name found) (h' : EndsAfter scopes k name found') :
    found = found' := by
  induction j generalizing name k with
  | zero =>
      obtain ⟨last, hwalk, hlast, rfl⟩ := h
      cases hwalk
      obtain ⟨last', hwalk', -, rfl⟩ := h'
      cases k with
      | zero =>
          cases hwalk'
          rfl
      | succ k =>
          rw [walk_succ_eq_none hlast] at hwalk'
          cases hwalk'
  | succ j ih =>
      cases hnext : next? scopes name with
      | none =>
          obtain ⟨last, hwalk, -⟩ := h
          rw [walk_succ_eq_none hnext] at hwalk
          cases hwalk
      | some target =>
          cases k with
          | zero =>
              obtain ⟨last, hwalk, hlast, -⟩ := h'
              cases hwalk
              cases hnext.symm.trans hlast
          | succ k => exact ih ((endsAfter_succ hnext).1 h) ((endsAfter_succ hnext).1 h')

end EndsAfter

/-- What `follow` yields is found at the end of the path, which is no further than there are
names `unpassed`. -/
theorem exists_endsAfter_of_follow {passed : List String} {fresh : name ∉ passed}
    (h : follow scopes passed name fresh = .ok found) :
    ∃ k ≤ (unpassed scopes passed).length, EndsAfter scopes k name found := by
  fun_induction follow scopes passed name fresh with
  | case1 passed name fresh hlookup =>
      cases h
      exact ⟨0, Nat.zero_le _, endsAfter_zero (next?_of_lookup?_eq_none hlookup) hlookup⟩
  | case2 => cases h
  | case3 passed name fresh v hlookup hvar hagain hlt ih =>
      obtain ⟨k, hk, hends⟩ := ih h
      have hnext := next?_of_isVar hlookup hvar
      exact ⟨k + 1, by omega, (endsAfter_succ hnext).2 hends⟩
  | case4 passed name fresh v hlookup hvar =>
      cases h
      have hnext := (next?_eq_none_iff hlookup).2 (by simpa using hvar)
      exact ⟨0, Nat.zero_le _, endsAfter_zero hnext hlookup⟩

/-! ### Paths that come back -/

/-- The names that a path has passed, from `start` to the present one. -/
structure Passed (scopes : Scopes) (start : String) (path : List String) : Prop where
  starts : path.head? = some start
  linked : path.IsChain fun x y => next? scopes x = some y
  distinct : path.Nodup

theorem linked_concat {passed : List String}
    (h : (passed ++ [name]).IsChain fun x y => next? scopes x = some y)
    (hnext : next? scopes name = some target) :
    (passed ++ [name] ++ [target]).IsChain fun x y => next? scopes x = some y := by
  rw [List.append_assoc]
  exact List.isChain_append_cons_cons.2 ⟨h, hnext, .singleton _⟩

theorem Passed.concat {start : String} {passed : List String}
    (h : Passed scopes start (passed ++ [name])) (hnext : next? scopes name = some target)
    (hfresh : target ∉ passed ++ [name]) : Passed scopes start (passed ++ [name] ++ [target]) where
  starts := by rw [List.head?_append_of_ne_nil _ (by simp), h.starts]
  linked := linked_concat h.linked hnext
  distinct := by
    rw [List.nodup_append]
    refine ⟨h.distinct, List.pairwise_singleton _ _, ?_⟩
    rintro x hx y hy rfl
    exact hfresh (List.mem_singleton.1 hy ▸ hx)

/-- A path that is about to pass a name again `ComesBack`. -/
theorem Passed.comesBack {start : String} {passed : List String}
    (h : Passed scopes start (passed ++ [name])) (hnext : next? scopes name = some target)
    (hagain : target ∈ passed ++ [name]) :
    ComesBack scopes start (passed ++ [name] ++ [target]) where
  starts := by rw [List.head?_append_of_ne_nil _ (by simp), h.starts]
  linked := linked_concat h.linked hnext
  distinct := by rw [List.dropLast_concat]; exact h.distinct
  again := ⟨target, by simp, by rwa [List.dropLast_concat]⟩

/-- Where `follow` fails, the names that were `Passed` and those that are passed from there on
make a chain that `ComesBack`. -/
theorem comesBack_of_follow {passed : List String} {fresh : name ∉ passed} {start : String}
    {cycle : Cycle} (hpassed : Passed scopes start (passed ++ [name]))
    (h : follow scopes passed name fresh = .error cycle) :
    ComesBack scopes start cycle.chain := by
  fun_induction follow scopes passed name fresh with
  | case1 => cases h
  | case2 passed name fresh v hlookup hvar hagain =>
      cases h
      have hnext := next?_of_isVar hlookup hvar
      show ComesBack scopes start (passed ++ [name, v.payload])
      rw [List.append_cons]
      exact hpassed.comesBack hnext hagain
  | case3 passed name fresh v hlookup hvar hagain hlt ih =>
      have hnext := next?_of_isVar hlookup hvar
      exact ih (hpassed.concat hnext hagain) h
  | case4 => cases h

/-- Every name of a chain but its last one has its `next?` in the chain. -/
theorem exists_next?_of_linked {path : List String} {x : String}
    (h : (path ++ [last]).IsChain fun x y => next? scopes x = some y) (hx : x ∈ path) :
    ∃ y ∈ path ++ [last], next? scopes x = some y := by
  induction path with
  | nil => cases hx
  | cons z path ih =>
      rw [List.cons_append] at h ⊢
      rcases List.mem_cons.1 hx with rfl | hx
      · cases path with
        | nil => exact ⟨last, by simp, (List.isChain_cons_cons.1 h).1⟩
        | cons y path => exact ⟨y, by simp, (List.isChain_cons_cons.1 h).1⟩
      · obtain ⟨y, hy, hnext⟩ := ih h.tail hx
        exact ⟨y, List.mem_cons_of_mem _ hy, hnext⟩

/-- References lead to one name only (`next?`): of two chains from a name, the shorter one is
the beginning of the longer one. -/
theorem prefix_of_linked {l m : List String}
    (hl : l.IsChain fun x y => next? scopes x = some y)
    (hm : m.IsChain fun x y => next? scopes x = some y) (hhead : l.head? = m.head?)
    (hle : l.length ≤ m.length) : l <+: m := by
  induction l generalizing m with
  | nil => exact List.nil_prefix
  | cons x l ih =>
      cases m with
      | nil => cases hhead
      | cons y m =>
          cases hhead
          rw [List.prefix_cons_inj]
          have hle' : l.length ≤ m.length := Nat.le_of_succ_le_succ hle
          cases l with
          | nil => exact List.nil_prefix
          | cons z l =>
              cases m with
              | nil => cases Nat.not_succ_le_zero _ hle'
              | cons z' m =>
                  have hz := (List.isChain_cons_cons.1 hl).1
                  have hz' := (List.isChain_cons_cons.1 hm).1
                  exact ih hl.tail hm.tail (hz.symm.trans hz') hle'

/-- From names that lead to one another, a `walk` goes on forever. -/
theorem isSome_walk_of_closed {names : List String}
    (hclosed : ∀ x ∈ names, ∃ y ∈ names, next? scopes x = some y) (hname : name ∈ names) (k : Nat) :
    (walk scopes k name).isSome = true := by
  induction k generalizing name with
  | zero => rfl
  | succ k ih =>
      obtain ⟨y, hy, hnext⟩ := hclosed name hname
      rw [walk_succ hnext]
      exact ih hy

namespace ComesBack

variable {chain chain' : List String}

theorem eq_concat (h : ComesBack scopes name chain) :
    ∃ path last, chain = path ++ [last] ∧ path.head? = some name ∧ path.Nodup ∧ last ∈ path := by
  obtain ⟨last, hlast, hmem⟩ := h.again
  have hchain := List.dropLast_append_getLast? last hlast
  refine ⟨chain.dropLast, last, hchain.symm, ?_, h.distinct, hmem⟩
  have hstarts := h.starts
  rw [← hchain, List.head?_append_of_ne_nil _ (List.ne_nil_of_mem hmem)] at hstarts
  exact hstarts

theorem exists_next? (h : ComesBack scopes name chain) {x : String} (hx : x ∈ chain.dropLast) :
    ∃ y ∈ chain.dropLast, next? scopes x = some y := by
  obtain ⟨path, last, rfl, -, -, hmem⟩ := h.eq_concat
  rw [List.dropLast_concat] at hx ⊢
  obtain ⟨y, hy, hnext⟩ := exists_next?_of_linked h.linked hx
  rcases List.mem_append.1 hy with hy | hy
  · exact ⟨y, hy, hnext⟩
  · exact ⟨y, List.mem_singleton.1 hy ▸ hmem, hnext⟩

theorem isSome_walk (h : ComesBack scopes name chain) (k : Nat) :
    (walk scopes k name).isSome = true := by
  refine isSome_walk_of_closed (fun x hx => h.exists_next? hx) ?_ k
  obtain ⟨path, last, rfl, hhead, -, -⟩ := h.eq_concat
  rw [List.dropLast_concat]
  exact List.mem_of_head? hhead

/-- A chain passes `boundNames` only, and all but the last of them once. -/
theorem length_le (h : ComesBack scopes name chain) :
    chain.length ≤ (boundNames scopes).length + 1 := by
  have hbound : chain.dropLast ⊆ boundNames scopes := by
    intro x hx
    obtain ⟨y, -, hnext⟩ := h.exists_next? hx
    exact mem_boundNames_of_next? hnext
  have hle := h.distinct.length_le_of_subset hbound
  rw [List.length_dropLast] at hle
  omega

theorem not_nodup (h : ComesBack scopes name chain) : ¬ chain.Nodup := by
  obtain ⟨path, last, rfl, -, -, hmem⟩ := h.eq_concat
  intro hnodup
  exact (List.nodup_append.1 hnodup).2.2 last hmem last (List.mem_singleton_self last) rfl

/-- A chain that `ComesBack` does so for the first time at its end, so no other is longer. -/
theorem length_not_lt (h : ComesBack scopes name chain) (h' : ComesBack scopes name chain') :
    ¬ chain.length < chain'.length := by
  intro hlt
  have hprefix := prefix_of_linked h.linked h'.linked (h.starts.trans h'.starts.symm) hlt.le
  have hfront : chain <+: chain'.dropLast := by
    refine List.prefix_of_prefix_length_le hprefix (List.dropLast_prefix chain') ?_
    rw [List.length_dropLast]
    omega
  exact h.not_nodup (hfront.sublist.nodup h'.distinct)

theorem unique (h : ComesBack scopes name chain) (h' : ComesBack scopes name chain') :
    chain = chain' := by
  have hlt := h.length_not_lt h'
  have hgt := h'.length_not_lt h
  have hlength : chain.length = chain'.length := by omega
  have hprefix := prefix_of_linked h.linked h'.linked (h.starts.trans h'.starts.symm) hlength.le
  exact hprefix.eq_of_length hlength

end ComesBack

/-! ### Resolving -/

theorem comesBack_of_resolve {cycle : Cycle} (h : resolve scopes name = .error cycle) :
    ComesBack scopes name cycle.chain :=
  have hfirst : Passed scopes name ([] ++ [name]) := ⟨rfl, .singleton _, by simp⟩
  comesBack_of_follow hfirst h

theorem exists_endsAfter_of_resolve (h : resolve scopes name = .ok found) :
    ∃ k ≤ (boundNames scopes).length, EndsAfter scopes k name found := by
  obtain ⟨k, hk, hends⟩ := exists_endsAfter_of_follow h
  exact ⟨k, hk.trans (List.length_filter_le _ _), hends⟩

/-- A name resolves to what is found at the end of its path (`EndsAfter`). -/
theorem resolve_eq_ok_iff :
    resolve scopes name = .ok found ↔ ∃ k, EndsAfter scopes k name found := by
  constructor
  · intro h
    obtain ⟨k, -, hends⟩ := exists_endsAfter_of_resolve h
    exact ⟨k, hends⟩
  · rintro ⟨k, hends⟩
    cases h : resolve scopes name with
    | ok found' =>
        obtain ⟨k', -, hends'⟩ := exists_endsAfter_of_resolve h
        rw [hends.unique hends']
    | error cycle =>
        have hgoes := (comesBack_of_resolve h).isSome_walk (k + 1)
        rw [hends.walk_eq_none] at hgoes
        cases hgoes

/-- A name is reported as cyclic exactly if every `walk` from it goes on. -/
theorem resolve_eq_error_iff :
    (∃ cycle, resolve scopes name = .error cycle) ↔ ∀ k, (walk scopes k name).isSome = true := by
  constructor
  · rintro ⟨cycle, h⟩
    exact (comesBack_of_resolve h).isSome_walk
  · intro hgoes
    cases h : resolve scopes name with
    | error cycle => exact ⟨cycle, rfl⟩
    | ok found =>
        obtain ⟨k, -, hends⟩ := exists_endsAfter_of_resolve h
        have hsome := hgoes (k + 1)
        rw [hends.walk_eq_none] at hsome
        cases hsome

/-- It is reported by the chain that `ComesBack`, and by no other. -/
theorem resolve_eq_error_iff_comesBack {cycle : Cycle} :
    resolve scopes name = .error cycle ↔ ComesBack scopes name cycle.chain := by
  refine ⟨comesBack_of_resolve, fun h => ?_⟩
  obtain ⟨cycle', hcycle'⟩ := resolve_eq_error_iff.2 h.isSome_walk
  have hchain : cycle'.chain = cycle.chain := (comesBack_of_resolve hcycle').unique h
  rw [hcycle', show cycle' = cycle from congrArg Cycle.mk hchain]

/-- The text of a result is the `payload` of its value. -/
theorem map_payload_eq_some_iff {r : Except Cycle (Option Tagged)} {text : String} :
    r.map (·.map Tagged.payload) = .ok (some text) ↔ ∃ v, r = .ok (some v) ∧ v.payload = text := by
  cases r with
  | error cycle => simp [Except.map]
  | ok found => cases found <;> simp [Except.map]

/-- **Resolving a name is following its references to the end.** The result of `resolve` is the
value that is no reference at the end of the path (`walk`), or none if the path ends at an
unbound name, or a cycle if it does not end. It takes no more steps than there are bound names.
A cycle is reported by the path itself, up to the first name that comes up again (`ComesBack`).
No expression has a reference for its value, so that the texts of names and expressions are
payloads of values that are none. -/
theorem resolve_follows (scopes : Scopes) (name : String) :
    (∀ v, resolve scopes name = .ok (some v) ↔
      v.isVar = false ∧ ∃ k last, walk scopes k name = some last ∧ lookup? scopes last = some v) ∧
    (resolve scopes name = .ok none ↔
      ∃ k last, walk scopes k name = some last ∧ lookup? scopes last = none) ∧
    ((∃ cycle, resolve scopes name = .error cycle) ↔
      ∀ k, (walk scopes k name).isSome = true) ∧
    (∀ found, resolve scopes name = .ok found →
      ∃ k ≤ (boundNames scopes).length, EndsAfter scopes k name found) ∧
    (∀ cycle, resolve scopes name = .error cycle →
      ComesBack scopes name cycle.chain ∧ cycle.chain.length ≤ (boundNames scopes).length + 1) ∧
    (∀ text, resolveText scopes name = .ok (some text) ↔
      ∃ v, resolve scopes name = .ok (some v) ∧ v.isVar = false ∧ v.payload = text) ∧
    ∀ expr, (∀ v, eval scopes expr = .ok (some v) → v.isVar = false) ∧
      ∀ text, evalText scopes expr = .ok (some text) ↔
        ∃ v, eval scopes expr = .ok (some v) ∧ v.isVar = false ∧ v.payload = text := by
  refine ⟨?_, ?_, resolve_eq_error_iff, fun found => exists_endsAfter_of_resolve, ?_, ?_, ?_⟩
  · intro v
    rw [resolve_eq_ok_iff]
    constructor
    · rintro ⟨k, last, hwalk, hlast, hv⟩
      exact ⟨(next?_eq_none_iff hv).1 hlast, k, last, hwalk, hv⟩
    · rintro ⟨hvar, k, last, hwalk, hv⟩
      exact ⟨k, last, hwalk, (next?_eq_none_iff hv).2 hvar, hv⟩
  · rw [resolve_eq_ok_iff]
    constructor
    · rintro ⟨k, last, hwalk, -, hnone⟩
      exact ⟨k, last, hwalk, hnone⟩
    · rintro ⟨k, last, hwalk, hnone⟩
      exact ⟨k, last, hwalk, next?_of_lookup?_eq_none hnone, hnone⟩
  · intro cycle h
    have hback := comesBack_of_resolve h
    exact ⟨hback, hback.length_le⟩
  · intro text
    rw [resolveText, map_payload_eq_some_iff]
    refine exists_congr fun v => and_congr_right fun h => ?_
    simp [isVar_of_follow h]
  · intro expr
    refine ⟨fun v => isVar_of_eval, fun text => ?_⟩
    rw [evalText, map_payload_eq_some_iff]
    refine exists_congr fun v => and_congr_right fun h => ?_
    simp [isVar_of_eval h]

/-- A local variable `x` that shadows a global one and leads to another, a name `w` that leads
to nothing, and a name `a` that leads into a cycle without being part of it. -/
def entangled : Scopes :=
  [.ofList [("x", ⟨"var", "y"⟩), ("a", ⟨"var", "b"⟩)],
    .ofList [("y", ⟨"var", "z"⟩), ("b", ⟨"var", "c"⟩), ("c", ⟨"var", "b"⟩)],
    .ofList [("x", ⟨"int", "1"⟩), ("z", ⟨"int", "2"⟩), ("w", ⟨"var", "nothing"⟩)]]

theorem resolve_follows_entangled :
    resolve entangled "x" = .ok (some ⟨"int", "2"⟩) ∧
    resolve entangled "w" = .ok none ∧
    resolve entangled "a" = .error ⟨["a", "b", "c", "b"]⟩ ∧
    ComesBack entangled "a" ["a", "b", "c", "b"] ∧
    ∀ k, (walk entangled k "a").isSome = true := by
  have hcycle : resolve entangled "a" = .error ⟨["a", "b", "c", "b"]⟩ := by decide +kernel
  obtain ⟨-, -, hforever, -, hback, -⟩ := resolve_follows entangled "a"
  refine ⟨?_, ?_, hcycle, (hback _ hcycle).1, hforever.1 ⟨_, hcycle⟩⟩
  · refine ((resolve_follows entangled "x").1 _).2 ⟨rfl, 2, "z", ?_, ?_⟩ <;> decide +kernel
  · refine (resolve_follows entangled "w").2.1.2 ⟨1, "nothing", ?_, ?_⟩ <;> decide +kernel

end Scopes

end BusScript
