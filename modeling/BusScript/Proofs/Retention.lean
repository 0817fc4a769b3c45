import BusScript.Proofs.Journal
import Mathlib.Data.List.DropRight

/-!
# What a context retains

A context keeps the last frames and messages, as many as its limits allow. This
module compares what it keeps with everything that was ever sent and logged in
it, as the journal of the session has it: `history_retained`.

Adding to a history in several parts is adding all of it at once
(`History.append_append`), so a context that takes up the world of a call with
`Context.absorb` is as if it had noted every event the moment it happened
(`Context.absorb_eq_foldl`). The invariant is that a context is a new one in which
all events since it was last cleared have been noted (`Retains`), and one step lemma
shows that every command keeps it.
-/

namespace BusScript

/-! ### The last items of a sequence -/

namespace History

variable {α : Type}

/-- The list `kept` has the last items of `all`, as many as `limit` allows, and all without a
limit. -/
structure LastOf (limit : Option Int) (all kept : List α) : Prop where
  suffix : kept <:+ all
  length : (kept.length : Int) = match limit with
    | none => (all.length : Int)
    | some n => min n all.length

theorem lastOf_keepLast (limit : Option Nat) (as : List α) :
    LastOf (limit.map Int.ofNat) as (keepLast limit as) := by
  cases limit with
  | none => exact ⟨List.suffix_rfl, rfl⟩
  | some n =>
      refine ⟨List.drop_suffix _ _, ?_⟩
      simp only [keepLast, Option.map_some, List.length_drop, Int.ofNat_eq_natCast]
      omega

/-- Nothing is lost by `keepLast` that is kept in the end. -/
theorem keepLast_keepLast_append (limit : Option Nat) (as bs : List α) :
    keepLast limit (keepLast limit as ++ bs) = keepLast limit (as ++ bs) := by
  cases limit with
  | none => rfl
  | some n =>
      -- what the first cut drops, the second one would drop as well
      have hle : as.length - n ≤ as.length := Nat.sub_le _ _
      simp only [keepLast]
      rw [← List.drop_append_of_le_length hle, List.drop_drop]
      congr 1
      simp only [List.length_drop, List.length_append]
      omega

/-- What is appended to a history in two parts is appended as a whole. -/
theorem append_append (h : History α) (as bs : List α) :
    (h.append as).append bs = h.append (as ++ bs) := by
  simp only [append, keepLast_keepLast_append, List.append_assoc]

/-- A history keeps no more items than its `limit` allows. -/
def Within (h : History α) : Prop := ∀ n, h.limit = some n → h.items.length ≤ n

theorem within_nil (limit : Option Nat) : (⟨limit, []⟩ : History α).Within :=
  fun n _ => Nat.zero_le n

/-- What `append` gives is within the limit, whatever was there before. -/
theorem within_append (h : History α) (as : List α) : (h.append as).Within := by
  intro n hn
  have hlimit : h.limit = some n := hn
  simp only [append, hlimit, keepLast, List.length_drop]
  omega

/-- Within its limit, a history loses nothing when nothing is added. -/
theorem Within.append_nil {h : History α} (hw : h.Within) : h.append [] = h := by
  obtain ⟨limit, items⟩ := h
  cases limit with
  | none => simp [append, keepLast]
  | some n =>
      have hle : items.length ≤ n := hw n rfl
      simp [append, keepLast, Nat.sub_eq_zero_of_le hle]

end History

/-! ### One event after the other -/

namespace Context

/-- Take up a single `Event` at the time at which it happens: what is logged is added to
`messages` and what is sent to `frames`, and the other events leave nothing. -/
def note (c : Context) : Event → Context
  | .log severity text => { c with messages := c.messages.append [(severity, text)] }
  | .send frame => { c with frames := c.frames.append [frame] }
  | .enter _ | .alarm _ => c

/-- Both histories of a context are within their limits. -/
structure Within (c : Context) : Prop where
  frames : c.frames.Within
  messages : c.messages.Within

variable {c : Context}

/-- One `note` keeps both histories within their limits. -/
theorem Within.note (h : c.Within) (e : Event) : (c.note e).Within := by
  cases e with
  | log severity text => exact ⟨h.frames, History.within_append _ _⟩
  | send frame => exact ⟨History.within_append _ _, h.messages⟩
  | enter function => exact h
  | alarm text => exact h

theorem Within.foldl_note (h : c.Within) (events : List Event) :
    (events.foldl Context.note c).Within := by
  induction events generalizing c with
  | nil => exact h
  | cons e es ih => exact ih (h.note e)

/-- Events that are taken up one by one with `note` are taken up as a whole: those that have
a `frame?` are appended to the frames, and those that have a `message?` to the messages. -/
theorem foldl_note (h : c.Within) (events : List Event) :
    events.foldl note c =
      { c with
        frames := c.frames.append (events.filterMap Event.frame?)
        messages := c.messages.append (events.filterMap Event.message?) } := by
  induction events generalizing c with
  | nil =>
      simp only [List.foldl_nil, List.filterMap_nil, h.frames.append_nil, h.messages.append_nil]
  | cons e es ih =>
      rw [List.foldl_cons, ih (h.note e)]
      cases e with
      | log severity text =>
          simp [note, List.filterMap_cons, Event.frame?, Event.message?, History.append_append]
      | send frame =>
          simp [note, List.filterMap_cons, Event.frame?, Event.message?, History.append_append]
      | enter function => simp [note, List.filterMap_cons, Event.frame?, Event.message?]
      | alarm text => simp [note, List.filterMap_cons, Event.frame?, Event.message?]

/-- Taking up the world of a call with `absorb` is taking up the events of its trace one by
one, in the order in which they happened. -/
theorem absorb_eq_foldl (h : c.Within) (w : World) :
    c.absorb w = { w.trace.toList.foldl note c with globals := w.globals } := by
  rw [foldl_note h]
  rfl

/-- Nothing that `note` keeps depends on the variables. -/
theorem foldl_note_globals (c : Context) (globals : Store) (events : List Event) :
    events.foldl note { c with globals } = { events.foldl note c with globals } := by
  induction events generalizing c with
  | nil => rfl
  | cons e es ih =>
      rw [List.foldl_cons, List.foldl_cons, ← ih]
      cases e <;> rfl

/-- What was noted is forgotten by `clear`, and the limits stay. -/
theorem clear_foldl_note (c : Context) (events : List Event) :
    (events.foldl note c).clear = c.clear := by
  induction events generalizing c with
  | nil => rfl
  | cons e es ih =>
      rw [List.foldl_cons, ih]
      cases e <;> rfl

/-! ### New contexts -/

theorem checkLimit_eq_ok {limit : Option Int} {n? : Option Nat} (h : checkLimit limit = .ok n?) :
    n?.map Int.ofNat = limit := by
  cases limit with
  | none =>
      cases h
      rfl
  | some n =>
      simp only [checkLimit] at h
      split at h
      · cases h
      · split at h
        · cases h
        · cases h
          simp only [Option.map_some, Int.ofNat_eq_natCast, Option.some.injEq]
          omega

theorem make_eq_ok {verbose : Bool} {maxFrames maxMessages : Option Int} {c : Context}
    (h : make verbose maxFrames maxMessages = .ok c) :
    ∃ frames messages, c = ⟨verbose, {}, ⟨frames, []⟩, ⟨messages, []⟩⟩ ∧
      frames.map Int.ofNat = maxFrames ∧ messages.map Int.ofNat = maxMessages := by
  unfold make at h
  cases hframes : checkLimit maxFrames with
  | error e =>
      rw [hframes] at h
      cases h
  | ok frames =>
      cases hmessages : checkLimit maxMessages with
      | error e =>
          rw [hframes, hmessages] at h
          cases h
      | ok messages =>
          rw [hframes, hmessages] at h
          cases h
          exact ⟨frames, messages, rfl, checkLimit_eq_ok hframes, checkLimit_eq_ok hmessages⟩

/-- The `texts` of one severity can be asked for by its name. -/
theorem texts_name (c : Context) (severity : Severity) :
    c.texts (some severity.name) =
      .ok ((c.messages.items.filter (·.1 = severity)).map (·.2)) := by
  have hname : Severity.ofName? severity.name = some severity := by
    cases severity <;> decide
  simp only [texts, hname]

end Context

/-! ### Entries since the last clearing -/

/-- Whether a command is `clear`, which forgets frames and messages. -/
def Command.isClear : Command → Bool
  | .clear => true
  | _ => false

/-- The entries of the context `key` after the last one that cleared it. -/
def Entry.recent (key : String) (entries : List Entry) : List Entry :=
  (entries.filter (·.name = some key)).rtakeWhile (!·.command.isClear)

namespace Entry

variable {key : String} {entries : List Entry} {x : Entry}

theorem recent_snoc_of_ne (h : x.name ≠ some key) :
    recent key (entries ++ [x]) = recent key entries := by
  simp [recent, h]

theorem recent_snoc (entries : List Entry) (h : x.name = some key) :
    recent key (entries ++ [x]) = if x.command.isClear then [] else recent key entries ++ [x] := by
  simp only [recent, List.filter_append, List.filter_cons, h, decide_true, if_true,
    List.filter_nil, List.rtakeWhile_concat]
  cases x.command.isClear <;> rfl

/-- The events of the `recent` entries, in the order in which they happened. -/
def events (key : String) (entries : List Entry) : List Event :=
  (recent key entries).flatMap (·.left.trace.toList)

theorem events_snoc_of_ne (h : x.name ≠ some key) :
    events key (entries ++ [x]) = events key entries := by
  rw [events, recent_snoc_of_ne h, events]

theorem events_snoc (entries : List Entry) (h : x.name = some key) :
    events key (entries ++ [x]) =
      if x.command.isClear then [] else events key entries ++ x.left.trace.toList := by
  rw [events, recent_snoc entries h]
  cases x.command.isClear with
  | true => rfl
  | false => simp [events]

theorem mem_of_mem_recent (h : x ∈ recent key entries) : x ∈ entries ∧ x.name = some key := by
  have hmem := (List.rtakeWhile_suffix _ _).subset h
  simpa using hmem

end Entry

namespace Session

/-- A command is settled by `absorb`, and `clear` forgets what was absorbed. -/
theorem settle_eq (c : Context) (u : World) (command : Command) :
    settle c u command = if command.isClear then (c.absorb u).clear else c.absorb u := by
  cases command <;> rfl

/-- Apart from its variables, a context is the new context `c₀` with all `Entry.events` since
the last clearing noted in it one by one, and all frames that were sent in it have been
delivered. -/
structure Retains (c₀ : Context) (key : String) (entries : List Entry) (c : Context) : Prop where
  noted : { c with globals := c₀.globals } = (Entry.events key entries).foldl Context.note c₀
  delivered : ∀ x ∈ entries, x.name = some key → x.response.sent = x.left.frames

variable {s₀ s s' : Session} {fuel : Nat} {key : String} {entries : List Entry}
  {c c₀ : Context} {x : Entry}

theorem Retains.start (c₀ : Context) (key : String) : Retains c₀ key [] c₀ where
  noted := rfl
  delivered _ hx := absurd hx List.not_mem_nil

theorem Retains.within (h : Retains c₀ key entries c) (hc₀ : c₀.Within) : c.Within := by
  have hnoted : { c with globals := c₀.globals }.Within := by
    rw [h.noted]
    exact hc₀.foldl_note _
  exact ⟨hnoted.frames, hnoted.messages⟩

/-- A command in another context than `key`, or in none, leaves what is retained. -/
theorem Retains.snoc_of_ne (h : Retains c₀ key entries c) (hname : x.name ≠ some key) :
    Retains c₀ key (entries ++ [x]) c where
  noted := by rw [Entry.events_snoc_of_ne hname, h.noted]
  delivered :=
    List.forall_mem_append.2
      ⟨h.delivered, List.forall_mem_singleton.2 fun hkey => absurd hkey hname⟩

/-- A command in the context `key` itself is settled by noting its events. -/
theorem Retains.snoc (h : Retains c₀ key entries c) (hc₀ : c₀.Within) (hempty : c₀.clear = c₀)
    (hname : x.name = some key) (hsent : x.response.sent = x.left.frames) :
    Retains c₀ key (entries ++ [x]) (settle c x.left x.command) where
  noted := by
    have hevents := Entry.events_snoc entries hname
    have habsorb := Context.absorb_eq_foldl (h.within hc₀) x.left
    rw [settle_eq]
    cases hclear : x.command.isClear with
    | true =>
        rw [hclear, if_pos rfl] at hevents
        rw [if_pos rfl, hevents, List.foldl_nil]
        calc { (c.absorb x.left).clear with globals := c₀.globals }
            = { (x.left.trace.toList.foldl Context.note c).clear with globals := c₀.globals } := by
              rw [habsorb]
              rfl
          _ = { c with globals := c₀.globals }.clear := by
              rw [Context.clear_foldl_note]
              rfl
          _ = c₀ := by rw [h.noted, Context.clear_foldl_note, hempty]
    | false =>
        rw [hclear, if_neg Bool.false_ne_true] at hevents
        rw [if_neg Bool.false_ne_true, hevents, List.foldl_append, ← h.noted,
          Context.foldl_note_globals, habsorb]
  delivered :=
    List.forall_mem_append.2 ⟨h.delivered, List.forall_mem_singleton.2 fun _ => hsent⟩

/-- Whatever has been done in a session, its `Journal` accounts for what a context retains. -/
theorem retains_of_journal (hc₀ : s₀.context? (some key) = some c₀) (hwithin : c₀.Within)
    (hempty : c₀.clear = c₀) (h : s₀.Journal entries s) :
    ∃ c, s.context? (some key) = some c ∧ Retains c₀ key entries c := by
  induction h with
  | nil => exact ⟨c₀, hc₀, .start c₀ key⟩
  | @snoc entries s s' fuel x _ _ hleft ih =>
      obtain ⟨c, hc, hretains⟩ := ih
      refine ⟨_, hleft.context? hc, ?_⟩
      by_cases hname : x.name = some key
      · rw [if_pos hname]
        rw [hname] at hleft
        exact hretains.snoc hwithin hempty hname (hleft.sent_eq hc)
      · rw [if_neg hname]
        exact hretains.snoc_of_ne hname

/-- The frames of the `events` are those that were sent. -/
theorem Retains.frames_events (h : Retains c₀ key entries c) :
    (Entry.events key entries).filterMap Event.frame? =
      (Entry.recent key entries).flatMap (·.response.sent) := by
  rw [Entry.events, List.filterMap_flatMap]
  refine List.flatMap_congr fun x hx => ?_
  obtain ⟨hmem, hname⟩ := Entry.mem_of_mem_recent hx
  exact (h.delivered x hmem hname).symm

theorem messages_events (key : String) (entries : List Entry) :
    (Entry.events key entries).filterMap Event.message? =
      (Entry.recent key entries).flatMap (·.left.messages) := by
  rw [Entry.events, List.filterMap_flatMap]
  rfl

/-- The histories hold what was sent and what was logged since the last clearing, added to what
`c₀` has. -/
theorem Retains.kept (h : Retains c₀ key entries c) (hc₀ : c₀.Within) :
    c.frames = c₀.frames.append ((Entry.recent key entries).flatMap (·.response.sent)) ∧
      c.messages = c₀.messages.append ((Entry.recent key entries).flatMap (·.left.messages)) := by
  have hnoted := h.noted
  rw [Context.foldl_note hc₀, h.frames_events, messages_events] at hnoted
  exact ⟨congrArg Context.frames hnoted, congrArg Context.messages hnoted⟩

/-! ### Clearing -/

/-- A context that is cleared by `clear` keeps its variables, and no other one changes. -/
theorem perform_clear (hc : s.context? (some key) = some c) (fuel : Nat) :
    ∃ r s', s.perform fuel (some key) .clear = some (r, s') ∧
      s'.context? (some key) = some c.clear ∧
      ∀ other, other ≠ key → s'.context? (some other) = s.context? (some other) := by
  rw [perform_within hc, start_of_context? hc]
  refine ⟨_, _, rfl, ?_, ?_⟩
  · rw [context?_put, if_pos rfl]
    rfl
  · intro other hother
    rw [context?_put, if_neg hother]
    rfl

/-- **A bounded history is the end of the full log.** Let a context be new, with
any limits, and let any commands be carried out. Then it is, but for its variables,
the new context with every event since the last `clear` noted one by one: it keeps
the last frames that were delivered since then, as many as its limit allows, and
likewise the last messages that were logged. Every frame that a command sends in it
is delivered, once and in order. To `clear` it forgets what it keeps and changes no
variable, here or elsewhere, and its `texts` are those of the kept messages, of all
or of one severity, in order. -/
theorem history_retained {verbose : Bool} {maxFrames maxMessages : Option Int}
    (hmake : Context.make verbose maxFrames maxMessages = .ok c₀)
    (hc₀ : s₀.context? (some key) = some c₀) (h : s₀.Journal entries s) :
    ∃ c, s.context? (some key) = some c ∧
      { c with globals := c₀.globals } = (Entry.events key entries).foldl Context.note c₀ ∧
      History.LastOf maxFrames ((Entry.recent key entries).flatMap (·.response.sent))
        c.frames.items ∧
      History.LastOf maxMessages ((Entry.recent key entries).flatMap (·.left.messages))
        c.messages.items ∧
      (∀ x ∈ entries, x.name = some key → x.response.sent = x.left.frames) ∧
      (∀ fuel, ∃ r s' c', s.perform fuel (some key) .clear = some (r, s') ∧
        s'.context? (some key) = some c' ∧ c'.globals = c.globals ∧ c'.frames.items = [] ∧
        c'.messages.items = [] ∧
        ∀ other, other ≠ key → s'.context? (some other) = s.context? (some other)) ∧
      c.texts none = .ok (c.messages.items.map (·.2)) ∧
      ∀ severity : Severity, c.texts (some severity.name) =
        .ok ((c.messages.items.filter (·.1 = severity)).map (·.2)) := by
  obtain ⟨frames, messages, rfl, rfl, rfl⟩ := Context.make_eq_ok hmake
  have hwithin : (⟨verbose, {}, ⟨frames, []⟩, ⟨messages, []⟩⟩ : Context).Within :=
    ⟨History.within_nil frames, History.within_nil messages⟩
  obtain ⟨c, hc, hretains⟩ := retains_of_journal hc₀ hwithin rfl h
  obtain ⟨hframes, hmessages⟩ := hretains.kept hwithin
  refine ⟨c, hc, hretains.noted, ?_, ?_, hretains.delivered, ?_, rfl, c.texts_name⟩
  · rw [hframes]
    exact History.lastOf_keepLast frames _
  · rw [hmessages]
    exact History.lastOf_keepLast messages _
  · intro fuel
    obtain ⟨r, s', hperform, hcleared, hothers⟩ := perform_clear hc fuel
    exact ⟨r, s', c.clear, hperform, hcleared, rfl, rfl, rfl, hothers⟩

/-- A function `f` that sends two frames and fails to send a third one, and a context `main`
that keeps one frame and two messages. -/
def brief : Session where
  engine :=
    { frameSize := none
      instructions := [("mark", ⟨"mark", .number 3, [⟨"x", "u8", "", ""⟩], ""⟩)]
      functions := [("f", .make "f" [] [
        .callInstruction "mark" (.ofList [("x", ⟨"int", "1"⟩)]) "",
        .callInstruction "mark" (.ofList [("x", ⟨"int", "2"⟩)]) "",
        .callInstruction "mark" (.ofList [("x", ⟨"int", "256"⟩)]) ""] "")] }
  contexts := [("main", ⟨false, {}, ⟨some 1, []⟩, ⟨some 2, []⟩⟩)]

theorem history_retained_brief :
    Context.make false (some 1) (some 2) = .ok ⟨false, {}, ⟨some 1, []⟩, ⟨some 2, []⟩⟩ ∧
    ∃ x s c, brief.Journal [x] s ∧ x.command = .call "f" {} 0 ∧
      x.response.sent = [⟨.number 3, [1], "mark"⟩, ⟨.number 3, [2], "mark"⟩] ∧
      s.context? (some "main") = some c ∧
      { c with globals := {} } =
        (Entry.events "main" [x]).foldl Context.note ⟨false, {}, ⟨some 1, []⟩, ⟨some 2, []⟩⟩ ∧
      History.LastOf (some 1) ((Entry.recent "main" [x]).flatMap (·.response.sent))
        c.frames.items ∧
      History.LastOf (some 2) ((Entry.recent "main" [x]).flatMap (·.left.messages))
        c.messages.items := by
  have hrun : (brief.perform 9 (some "main") (.call "f" {} 0)).map (·.1.sent) =
      some [⟨.number 3, [1], "mark"⟩, ⟨.number 3, [2], "mark"⟩] := by
    decide +kernel
  obtain ⟨⟨r, s⟩, hperform, hsent⟩ := Option.map_eq_some_iff.1 hrun
  obtain ⟨u, hjournal⟩ := Journal.nil.perform hperform
  have hmake : Context.make false (some 1) (some 2) =
      .ok ⟨false, {}, ⟨some 1, []⟩, ⟨some 2, []⟩⟩ := rfl
  have hc₀ : brief.context? (some "main") =
      some ⟨false, {}, ⟨some 1, []⟩, ⟨some 2, []⟩⟩ := rfl
  obtain ⟨c, hc, hnoted, hframes, hmessages, -⟩ := history_retained hmake hc₀ hjournal
  exact ⟨hmake, _, s, c, hjournal, rfl, hsent, hc, hnoted, hframes, hmessages⟩

end Session

end BusScript
