import BusScript.Proofs.Emission

/-!
# Journals of sessions

A journal lists the commands that have led from one session to another, each
with its answer and the world that it left. What holds of all sessions can be
said in terms of the journal, by induction on it.
-/

namespace BusScript

/-- A command that has been carried out, with its `response`. -/
structure Entry where
  /-- The name of the context that it is about, if one is named. -/
  name : Option String
  command : Command
  response : Response
  /-- The world that it left. -/
  left : World

namespace Session

/-- The commands that have led from the session `s₀` to another one, oldest first. -/
inductive Journal (s₀ : Session) : List Entry → Session → Prop
  | nil : Journal s₀ [] s₀
  | snoc {entries : List Entry} {s s' : Session} {fuel : Nat} {x : Entry}
      (h : Journal s₀ entries s)
      (hperform : s.perform fuel x.name x.command = some (x.response, s'))
      (hleft : s.Performs fuel x.command x.name x.response s' x.left) :
      Journal s₀ (entries ++ [x]) s'

variable {s₀ s s' : Session} {fuel : Nat} {command : Command} {name : Option String}
  {r : Response} {u : World}

/-- Every command that is carried out by `perform` can be entered. -/
theorem Journal.perform {entries : List Entry} (h : s₀.Journal entries s)
    (hperform : s.perform fuel name command = some (r, s')) :
    ∃ u, s₀.Journal (entries ++ [⟨name, command, r, u⟩]) s' := by
  obtain ⟨u, hu⟩ := performs_of_perform hperform
  exact ⟨u, .snoc h hperform hu⟩

theorem ne_of_context?_eq_none {key : String} {c : Context} (hnone : s.context? name = none)
    (hc : s.context? (some key) = some c) : name ≠ some key := by
  rintro rfl
  exact absurd (hnone.symm.trans hc) nofun

/-- A command changes the context that it names, by `settle`, and no other one. -/
theorem Performs.context? {key : String} {c : Context}
    (h : s.Performs fuel command name r s' u) (hc : s.context? (some key) = some c) :
    s'.context? (some key) = some (if name = some key then settle c u command else c) := by
  cases h with
  | @within name c' reply E u hc' hact =>
      rw [context?_put]
      by_cases hname : name = key
      · subst hname
        obtain rfl : c' = c := Option.some.inj (hc'.symm.trans hc)
        rw [if_pos rfl, if_pos rfl]
      · have hne : some name ≠ some key := fun heq => hname (Option.some.inj heq)
        rw [if_neg (Ne.symm hname), if_neg hne]
        exact hc
  | alone hnone =>
      rw [if_neg (ne_of_context?_eq_none hnone hc)]
      exact hc
  | refused hnone =>
      rw [if_neg (ne_of_context?_eq_none hnone hc)]
      exact hc

/-- What is sent in a context of the host is delivered as `sent`. -/
theorem Performs.sent_eq {key : String} {c : Context}
    (h : s.Performs fuel command (some key) r s' u) (hc : s.context? (some key) = some c) :
    r.sent = u.frames := by
  cases h with
  | within hc' hact => rfl
  | alone hnone => exact absurd rfl (ne_of_context?_eq_none hnone hc)
  | refused hnone => exact absurd rfl (ne_of_context?_eq_none hnone hc)

end Session

end BusScript
