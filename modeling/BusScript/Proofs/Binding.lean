import BusScript.Proofs.Lockstep

/-!
# Bound texts and merged scopes

Hosts bind names to texts and read texts back. A text is cut at its first colon
into tag and payload, and put together again when it is read. The cut is lost
where it was made behind an empty tag: a text that **begins with a colon** comes
back without it, and the colon alone is no value at all. The other way round, a
value is not recovered from its text where an earlier colon than the one behind
its tag is taken for it. `text_roundTrip` says which texts and which values
survive; `set_text` says of each text what becomes of it when it is bound, and
what becomes of the other bindings.

A list of scopes is looked up from the innermost one outwards. Inserting the
names of each outer scope that are still free into the inner one gives a single
store, and no reference can tell the two apart, wherever it hops and whatever is
shadowed: `resolve_merged`.
-/

namespace BusScript

/-! ### Texts of values -/

namespace Tagged

variable {v : Tagged} {text : String}

/-- A text with a tag is cut behind it by `parse`, if the tag has no colon. -/
theorem parse_append {tag : String} (h : ':' ∉ tag.toList) (payload : String) :
    parse (tag ++ ":" ++ payload) = ⟨tag, payload⟩ := by
  rw [parse, Text.cut, Text.cut?_append rfl h]
  rfl

/-- What stands behind a leading colon is read by `parse` with the empty tag, as if there was no
colon. -/
theorem parse_colon (rest : String) : parse (":" ++ rest) = ⟨"", rest⟩ :=
  parse_append (show ':' ∉ "".toList by decide) rest

/-- The value that `isEmpty` is the one without a text. -/
theorem isEmpty_iff_render : v.isEmpty = true ↔ v.render = "" := by
  obtain ⟨tag, payload⟩ := v
  by_cases htag : tag = ""
  · simp [isEmpty, render, htag]
  · simp [isEmpty, render, htag]

theorem render_parse_colon (rest : String) : (parse (":" ++ rest)).render = rest := by
  rw [parse_colon]
  rfl

theorem eq_colon_append (h : text.toList.head? = some ':') : ∃ rest, text = ":" ++ rest := by
  obtain ⟨chars, hchars⟩ := List.head?_eq_some_iff.1 h
  refine ⟨String.ofList chars, String.toList_injective ?_⟩
  simp [hchars]

/-- A text that does not begin with a colon is the text of its value. -/
theorem render_parse (h : text.toList.head? ≠ some ':') : (parse text).render = text := by
  rw [parse, Text.cut]
  cases hcut : Text.cut? text ":" with
  | none => rfl
  | some parts =>
      obtain ⟨tag, payload⟩ := parts
      obtain ⟨rfl, -⟩ := Text.cut?_eq_some rfl hcut
      -- behind the empty tag the colon would come first
      have htag : tag ≠ "" := by
        rintro rfl
        simp at h
      exact if_neg htag

/-- A text is what `render` gives of its value exactly if it does not begin with a colon. -/
theorem render_parse_eq_self_iff : (parse text).render = text ↔ text.toList.head? ≠ some ':' := by
  refine ⟨fun h hhead => ?_, render_parse⟩
  obtain ⟨rest, rfl⟩ := eq_colon_append hhead
  rw [render_parse_colon] at h
  have hlength := congrArg String.length h
  simp at hlength

/-- Only the empty text and the colon alone are read as the value without a text. -/
theorem render_parse_eq_empty_iff : (parse text).render = "" ↔ text = "" ∨ text = ":" := by
  by_cases hhead : text.toList.head? = some ':'
  · obtain ⟨rest, rfl⟩ := eq_colon_append hhead
    rw [render_parse_colon]
    simp
  · rw [render_parse hhead]
    refine ⟨Or.inl, ?_⟩
    rintro (rfl | rfl)
    · rfl
    · exact absurd rfl hhead

/-- A `tag` that was read has no colon: the text was cut at the first one. -/
theorem colon_not_mem_tag_parse (text : String) : ':' ∉ (parse text).tag.toList := by
  rw [parse, Text.cut]
  cases hcut : Text.cut? text ":" with
  | none => simp
  | some parts =>
      obtain ⟨tag, payload⟩ := parts
      exact (Text.cut?_eq_some rfl hcut).2

/-- A text is all `payload` exactly if it has no colon. -/
theorem parse_eq_untagged_iff : parse text = ⟨"", text⟩ ↔ ':' ∉ text.toList := by
  rw [parse, Text.cut]
  cases hcut : Text.cut? text ":" with
  | none =>
      have hfree : ':' ∉ text.toList := Text.not_mem_of_cut?_eq_none rfl hcut
      simp [hfree]
  | some parts =>
      obtain ⟨tag, payload⟩ := parts
      obtain ⟨rfl, -⟩ := Text.cut?_eq_some rfl hcut
      -- the payload is shorter than the text that it was cut from
      have hshort : payload ≠ tag ++ ":" ++ payload := fun h => by
        have hlength := congrArg String.length h
        simp at hlength
      simp [hshort]

/-- A value is what `parse` reads from its text exactly if the first colon of the text is the
one behind the `tag`, or there is none. -/
theorem parse_render_eq_self_iff :
    parse v.render = v ↔
      (v.tag ≠ "" ∧ ':' ∉ v.tag.toList) ∨ (v.tag = "" ∧ ':' ∉ v.payload.toList) := by
  obtain ⟨tag, payload⟩ := v
  by_cases htag : tag = ""
  · simp [render, htag, parse_eq_untagged_iff]
  · have hrender : render ⟨tag, payload⟩ = tag ++ ":" ++ payload := if_neg htag
    simp only [hrender, htag, ne_eq, not_false_eq_true, true_and, false_and, or_false]
    constructor
    · intro h
      have hfree := colon_not_mem_tag_parse (tag ++ ":" ++ payload)
      rwa [h] at hfree
    · intro h
      exact parse_append h payload

/-- **What survives as a text.** A value is read back by `parse` from what `render` gives
exactly if it has a tag without a colon, or no tag and a payload without a colon. A text is
written again by its value exactly if it does not begin with a colon. -/
theorem text_roundTrip :
    (∀ v : Tagged, parse v.render = v ↔
      (v.tag ≠ "" ∧ ':' ∉ v.tag.toList) ∨ (v.tag = "" ∧ ':' ∉ v.payload.toList)) ∧
    ∀ text : String, (parse text).render = text ↔ text.toList.head? ≠ some ':' :=
  ⟨fun _ => parse_render_eq_self_iff, fun _ => render_parse_eq_self_iff⟩

end Tagged

/-! ### Bound texts -/

namespace Store

/-- From `s` to `s'`, the name is bound to a text: in its place if it was bound before, else at
the end. All else stays. -/
structure Binds (s : Store) (name text : String) (s' : Store) : Prop where
  text : s'.getText? name = some text
  others : ∀ x, x ≠ name → s'.get? x = s.get? x
  inPlace : ∀ before old after, s.bindings = before ++ (name, old) :: after →
    ∃ v, s'.bindings = before ++ (name, v) :: after
  atEnd : s.get? name = none → ∃ v, s'.bindings = s.bindings ++ [(name, v)]

/-- From `s` to `s'`, the name loses its binding. All else stays. -/
structure Unbinds (s : Store) (name : String) (s' : Store) : Prop where
  unbound : s'.get? name = none
  others : s'.bindings = s.bindings.filter (·.1 ≠ name)

variable {v : Tagged}

/-- A value that is not empty is bound by `set` with all that `Binds` says. -/
theorem binds_set (s : Store) (name : String) (hv : v.isEmpty = false) :
    s.Binds name v.render (s.set name v) := by
  have hset : (s.set name v).bindings = Assoc.put name v s.bindings := by
    rw [set, dif_neg (by simp [hv])]
    rfl
  refine ⟨?_, fun x hx => ?_, fun before old after hs => ?_, fun hnone => ?_⟩
  · rw [getText?, get?_set, if_pos rfl, hv]
    rfl
  · rw [get?_set, if_neg hx]
  · -- no binding before the one of the name has that name
    have hnodup := s.nodup
    rw [hs, Assoc.names_append, List.nodup_append] at hnodup
    have hbefore : name ∉ Assoc.names before :=
      fun hmem => hnodup.2.2 name hmem name List.mem_cons_self rfl
    exact ⟨v, by rw [hset, hs, Assoc.put_append hbefore]⟩
  · exact ⟨v, by rw [hset, Assoc.put_of_not_mem (get?_eq_none_iff.1 hnone)]⟩

/-- The empty value removes the name by `set`, with all that `Unbinds` says. -/
theorem unbinds_set (s : Store) (name : String) (hv : v.isEmpty = true) :
    s.Unbinds name (s.set name v) := by
  refine ⟨?_, ?_⟩
  · rw [get?_set, if_pos rfl, if_pos hv]
  · rw [set, dif_pos hv]
    rfl

/-- A name is bound to a text by `set` exactly if that is the text of the value, and not empty.
-/
theorem binds_set_iff {s : Store} {name text : String} :
    s.Binds name text (s.set name v) ↔ text ≠ "" ∧ v.render = text := by
  constructor
  · intro h
    have htext := h.text
    rw [getText?, get?_set, if_pos rfl] at htext
    cases hv : v.isEmpty with
    | true => simp [hv] at htext
    | false =>
        have hrender : v.render = text := by simpa [hv] using htext
        refine ⟨?_, hrender⟩
        rw [← hrender, ne_eq, ← Tagged.isEmpty_iff_render, hv]
        decide
  · rintro ⟨htext, rfl⟩
    refine binds_set s name ?_
    rwa [ne_eq, ← Tagged.isEmpty_iff_render, Bool.not_eq_true] at htext

theorem unbinds_set_iff {s : Store} {name : String} :
    s.Unbinds name (s.set name v) ↔ v.render = "" := by
  rw [← Tagged.isEmpty_iff_render]
  refine ⟨fun h => ?_, unbinds_set s name⟩
  have hnone := h.unbound
  rw [get?_set, if_pos rfl] at hnone
  simpa using hnone

/-- **What becomes of a text.** A text comes back as it was bound, in the place of the name
(`Binds`), exactly if it is not empty and does not begin with a colon. The empty text and the
colon alone remove the name (`Unbinds`), and no other text does. A leading colon is lost: what
is bound is the text behind it. -/
theorem set_text (s : Store) (name text : String) :
    (s.Binds name text (s.set name (.parse text)) ↔
      text ≠ "" ∧ text.toList.head? ≠ some ':') ∧
    (s.Unbinds name (s.set name (.parse text)) ↔ text = "" ∨ text = ":") ∧
    (∀ rest, text = ":" ++ rest → rest ≠ "" →
      s.Binds name rest (s.set name (.parse text))) := by
  refine ⟨?_, ?_, ?_⟩
  · rw [binds_set_iff, Tagged.render_parse_eq_self_iff]
  · rw [unbinds_set_iff, Tagged.render_parse_eq_empty_iff]
  · rintro rest rfl hrest
    exact binds_set_iff.2 ⟨hrest, Tagged.render_parse_colon rest⟩

/-- A text with a tag, one that is a colon, and one with a colon in front. -/
theorem set_text_speed :
    let s : Store := ofList [("speed", ⟨"int", "1"⟩), ("gear", ⟨"str", "P"⟩)]
    s.Binds "speed" "hex:0A:0B" (s.set "speed" (.parse "hex:0A:0B")) ∧
    s.Unbinds "speed" (s.set "speed" (.parse ":")) ∧
    s.Binds "gear" "D" (s.set "gear" (.parse ":D")) := by
  intro s
  refine ⟨(set_text s "speed" "hex:0A:0B").1.2 ⟨by decide, by decide⟩,
    (set_text s "speed" ":").2.1.2 (Or.inr rfl),
    (set_text s "gear" ":D").2.2 "D" (by decide) (by decide)⟩

/-- The text `:x` is not empty, and what is read back is `x`. -/
theorem not_binds_leadingColon : ¬ empty.Binds "n" ":x" (empty.set "n" (.parse ":x")) := by
  intro h
  exact absurd h.text (by decide)

end Store

/-! ### Merged scopes -/

namespace Scopes

/-- A `merge` binds what its inner store binds, and else what its outer one does. -/
theorem lookup?_merge (s t : Store) (scopes : Scopes) (name : String) :
    lookup? (s.merge t :: scopes) name = lookup? (s :: t :: scopes) name := by
  simp only [lookup?, List.findSome?_cons, Store.get?_merge]
  cases s.get? name <;> rfl

/-- Three scopes are looked up as their `merge` is. -/
theorem lookup?_merged (args locals globals : Store) (name : String) :
    lookup? [args, locals, globals] name = lookup? [(args.merge locals).merge globals] name := by
  rw [lookup?_merge, lookup?_merge]

/-- **Scopes merge.** Inserting (`Store.merge`) into a copy of the innermost store the names of
the next one that are free in it, and then those of the outermost one, gives a store that
answers alone as the three do: every name and every expression has the same value, is unbound in
both, or walks the same cycle, name for name. -/
theorem resolve_merged (args locals globals : Store) :
    let merged := (args.merge locals).merge globals
    (∀ name, resolve [args, locals, globals] name = resolve [merged] name) ∧
    (∀ v, eval [args, locals, globals] v = eval [merged] v) ∧
    (∀ name, resolveText [args, locals, globals] name = resolveText [merged] name) ∧
    (∀ v, evalText [args, locals, globals] v = evalText [merged] v) := by
  intro merged
  -- a hop restarts from the innermost scope, so look-ups that agree are enough
  have hresolve : ∀ name, resolve [args, locals, globals] name = resolve [merged] name :=
    resolve_congr (lookup?_merged args locals globals)
  have heval : ∀ v, eval [args, locals, globals] v = eval [merged] v :=
    eval_congr (lookup?_merged args locals globals)
  refine ⟨hresolve, heval, fun name => ?_, fun v => ?_⟩
  · rw [resolveText, resolveText, hresolve]
  · rw [evalText, evalText, heval]

end Scopes

end BusScript
