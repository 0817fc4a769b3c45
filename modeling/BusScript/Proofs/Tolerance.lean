import BusScript.Proofs.FailStop

/-!
# Missing definitions

An engine either stops at a missing definition or goes on behind the call that
needed it. The choice is made again at every call statement, at any depth and in
any pass of a loop, and yet all it decides is how far a call goes
(`stopOnError_cuts`): the call of an engine that stops is the call of one that
goes on, or it ends at the first missing definition with what the other one has
left behind up to there.

An engine that goes on never lets a missing definition out of a call, except
that of the called function itself: `run_not_missed`.
-/

namespace BusScript

/-- A call has ended with the fault `unknown`: a definition was missing. -/
def Outcome.Missed (o : Outcome) : Prop :=
  ∃ kind name, o.result = .error (.error (.unknown kind name))

/-- A statement has ended its call with the fault `unknown`. -/
def Turn.Missed (t : Turn) : Prop :=
  ∃ kind name w, t = .stop (.error (.unknown kind name)) w

namespace Engine

/-- The engine that stops at missing definitions or goes on, by its `stopOnError`. -/
def stopping (E : Engine) (stop : Bool) : Engine := { E with stopOnError := stop }

variable {E : Engine} {fuel : Nat} {depth : Int} {a : Activation} {s : Statement} {w : World}

/-! ### An engine that goes on -/

theorem tolerates_unknown (kind : DefinitionKind) (name : String) :
    (E.stopping false).tolerates (.error (.unknown kind name)) = true := rfl

/-- A fault that comes out of a run is not tolerated, and all missing definitions are, if the
engine is `stopping false`. -/
theorem run_not_missed {o : Outcome} (h : (E.stopping false).run fuel depth a w = some o) :
    ¬ o.Missed := by
  obtain ⟨r, w'⟩ := o
  rintro ⟨kind, name, hr⟩
  cases hr
  obtain ⟨c, -, -, hstop, -⟩ := exists_raises_of_run h
  rw [tolerates_unknown] at hstop
  cases hstop

theorem call_missed_iff {name : String} {args : Store} {o : Outcome}
    (h : (E.stopping false).call fuel depth name args w = some o) :
    o.Missed ↔ E.findFunction? name = none := by
  rw [call_eq] at h
  cases hf : E.findFunction? name with
  | none =>
      have hentry : (E.stopping false).entry depth name w =
          .error ⟨.error (.error (.unknown .function name)),
            w.report (.unknown .function name)⟩ :=
        entry_eq_fault_iff.2 ⟨.unknown hf, rfl⟩
      rw [hentry] at h
      cases h
      exact ⟨fun _ => rfl, fun _ => ⟨_, _, rfl⟩⟩
  | some f =>
      refine ⟨fun hmissed => absurd hmissed ?_, nofun⟩
      cases hentry : (E.stopping false).entry depth name w with
      | ok g =>
          rw [hentry] at h
          exact run_not_missed h
      | error o' =>
          rw [hentry] at h
          cases h
          rcases entry_error_cases hentry with ⟨hnone, -⟩ | ⟨limit, -, hr⟩
          · cases hf.symm.trans hnone
          · -- it is nested too deeply, which is another fault
            rintro ⟨kind, missing, hmissed⟩
            cases hr <;> cases hmissed

/-! ### Two engines -/

/-- What an execution that stops at missing definitions comes to, against what the one that goes
on comes to: they are the same and nothing was `Missed`, or the first has ended in a world whose
trace the other one goes on from. -/
inductive Cuts {α : Type} (Missed : α → Prop) (world : α → World) (x : α) (x'? : Option α) : Prop
  | same (h : x'? = some x) (hfound : ¬ Missed x) : Cuts Missed world x x'?
  | missed (hmissed : Missed x)
      (htrace : ∀ x', x'? = some x' → (world x).trace.toList <+: (world x').trace.toList) :
      Cuts Missed world x x'?

/-- Behind a call statement, the engines part in `resume` exactly where a definition was
missing. -/
theorem resume_stopping {α : Type} (r : Except (Failure Fault) α) (w : World) :
    (∃ kind name, r = .error (.error (.unknown kind name))) ∧
      ((E.stopping true).resume a r w).Missed ∨
    (¬ ∃ kind name, r = .error (.error (.unknown kind name))) ∧
      ¬ ((E.stopping true).resume a r w).Missed ∧
      (E.stopping false).resume a r w = (E.stopping true).resume a r w := by
  cases r with
  | ok v => exact .inr ⟨nofun, nofun, rfl⟩
  | error f =>
      cases f with
      | unwritable => exact .inr ⟨nofun, nofun, rfl⟩
      | error fault =>
          cases fault with
          | unknown kind name => exact .inl ⟨⟨kind, name, rfl⟩, kind, name, w, rfl⟩
          | structural e => exact .inr ⟨nofun, nofun, rfl⟩
          | encoding e => exact .inr ⟨nofun, nofun, rfl⟩
          | depth level limit function => exact .inr ⟨nofun, nofun, rfl⟩

/-- A statement after a call that both engines have made alike: `Cuts` relates the turns. -/
theorem cuts_of_resume {α : Type} (r : Except (Failure Fault) α) (w : World) :
    Cuts Turn.Missed Turn.world ((E.stopping true).resume a r w)
      (some ((E.stopping false).resume a r w)) := by
  rcases E.resume_stopping r w with ⟨-, hmissed⟩ | ⟨-, hfound, hsame⟩
  · refine .missed hmissed ?_
    intro t' ht'
    cases ht'
    simp
  · exact .same (congrArg some hsame) hfound

/-- A statement after a call that one engine may have cut (`Cuts`). -/
theorem cuts_of_call {o : Outcome} {o'? : Option Outcome}
    (h : Cuts Outcome.Missed Outcome.world o o'?) :
    Cuts Turn.Missed Turn.world ((E.stopping true).resume a o.result o.world)
      (o'?.map fun o' => (E.stopping false).resume a o'.result o'.world) := by
  cases h with
  | same hsame hfound =>
      rw [hsame]
      exact cuts_of_resume o.result o.world
  | missed hmissed htrace =>
      rcases E.resume_stopping (a := a) o.result o.world with ⟨-, hturn⟩ | ⟨hfound, -⟩
      · refine .missed hturn ?_
        intro t' ht'
        obtain ⟨o', ho', rfl⟩ := Option.map_eq_some_iff.1 ht'
        simpa using htrace o' ho'
      · exact absurd hmissed hfound

/-- A statement calls an instruction or a function: its form says so, and its `actuals` have
values. -/
def Calls (a : Activation) (s : Statement) (w : World) : Prop :=
  (s.form = .callInstruction ∨ s.form = .callFunction) ∧
    ∃ actuals, (a.memory w).actuals s = .ok actuals

/-- To a statement that calls nothing, `stopping` makes no difference. -/
theorem step_stopping {call call' : String → Store → World → Option Outcome} {stop stop' : Bool}
    (h : ¬ Calls a s w) :
    (E.stopping stop).step call a s w = (E.stopping stop').step call' a s w := by
  cases hform : s.form with
  | callInstruction =>
      cases hactuals : (a.memory w).actuals s with
      | error e => simp only [step, hform, hactuals]
      | ok actuals => exact absurd ⟨.inl hform, actuals, hactuals⟩ h
  | callFunction =>
      cases hactuals : (a.memory w).actuals s with
      | error e => simp only [step, hform, hactuals]
      | ok actuals => exact absurd ⟨.inr hform, actuals, hactuals⟩ h
  | _ => simp only [step, hform]

/-- A statement that calls nothing has `Missed` nothing. -/
theorem Action.not_missed {call : String → Store → World → Option Outcome} {t : Turn}
    (h : E.Action call a s w t) (hcalls : ¬ Calls a s w) : ¬ t.Missed := by
  rintro ⟨kind, name, w', rfl⟩
  generalize ht : Turn.stop _ w' = t at h
  cases h with
  | send hform hactuals => exact hcalls ⟨.inl hform, _, hactuals⟩
  | call hform hactuals hcall => exact hcalls ⟨.inr hform, _, hactuals⟩
  | _ => cases ht

theorem step_cuts
    (hcall : ∀ {name : String} {args : Store} {w : World} {o : Outcome},
      (E.stopping true).call fuel depth name args w = some o →
        Cuts Outcome.Missed Outcome.world o ((E.stopping false).call fuel depth name args w))
    {t : Turn} (h : (E.stopping true).step ((E.stopping true).call fuel depth) a s w = some t) :
    Cuts Turn.Missed Turn.world t
      ((E.stopping false).step ((E.stopping false).call fuel depth) a s w) := by
  by_cases hcalls : Calls a s w
  · obtain ⟨hform | hform, actuals, hactuals⟩ := hcalls
    · simp only [step, hform, hactuals, Option.some.injEq] at h ⊢
      rw [← h]
      exact cuts_of_resume _ _
    · rw [step_callFunction hform hactuals] at h ⊢
      obtain ⟨o, ho, rfl⟩ := Option.map_eq_some_iff.1 h
      exact cuts_of_call (hcall ho)
  · exact .same ((step_stopping hcalls).trans h) ((action_of_step h).not_missed hcalls)

theorem call_cuts
    (hrun : ∀ {a : Activation} {w : World} {o : Outcome},
      (E.stopping true).run fuel depth a w = some o →
        Cuts Outcome.Missed Outcome.world o ((E.stopping false).run fuel depth a w))
    {name : String} {args : Store} {o : Outcome}
    (h : (E.stopping true).call fuel depth name args w = some o) :
    Cuts Outcome.Missed Outcome.world o ((E.stopping false).call fuel depth name args w) := by
  rw [call_eq] at h ⊢
  -- which function is entered does not depend on the choice
  have hsame : (E.stopping false).entry depth name w = (E.stopping true).entry depth name w := rfl
  rw [hsame]
  cases hentry : (E.stopping true).entry depth name w with
  | ok f =>
      rw [hentry] at h
      exact hrun h
  | error o' =>
      rw [hentry] at h
      cases h
      by_cases hmissed : o.Missed
      · refine .missed hmissed ?_
        intro o' ho'
        cases ho'
        exact List.prefix_rfl
      · exact .same rfl hmissed

/-- A run of the engine that stops and the run of the one that goes on are related by `Cuts`. -/
theorem run_cuts {o : Outcome} (h : (E.stopping true).run fuel depth a w = some o) :
    Cuts Outcome.Missed Outcome.world o ((E.stopping false).run fuel depth a w) := by
  induction fuel generalizing depth a w o with
  | zero => simp at h
  | succ fuel ih =>
      cases hs : a.current? with
      | none =>
          rw [run_of_over hs] at h ⊢
          cases h
          refine .same rfl ?_
          rintro ⟨kind, name, hmissed⟩
          unfold Activation.finish at hmissed
          split at hmissed <;> cases hmissed
      | some s =>
          rw [run_of_current? hs] at h ⊢
          obtain ⟨t, ht, hfollow⟩ := Option.bind_eq_some_iff.1 h
          cases step_cuts (call_cuts ih) ht with
          | same hsame hfound =>
              rw [hsame, Option.bind_some]
              cases t with
              | next a' w' => exact ih hfollow
              | stop f w' =>
                  cases hfollow
                  refine .same rfl ?_
                  rintro ⟨kind, name, hmissed⟩
                  cases hmissed
                  exact hfound ⟨kind, name, w', rfl⟩
          | missed hmissed htrace =>
              obtain ⟨kind, name, w', rfl⟩ := hmissed
              cases hfollow
              refine .missed ⟨kind, name, rfl⟩ ?_
              intro o' ho'
              obtain ⟨t', ht', hfollow'⟩ := Option.bind_eq_some_iff.1 ho'
              exact (htrace t' ht').trans (trace_prefix_of_follow hfollow')

/-! ### The influence of the choice -/

/-- **Stopping at missing definitions decides how far a call goes, and nothing else.** An engine
that goes on (`stopping false`) ends a call for a missing definition if and only if the called
function itself is missing. A call of an engine that stops, if it does not end for one
(`Missed`), has the same outcome when the engine goes on; if it does, its frames and messages
are the beginning of those that are sent and logged when the engine goes on. -/
theorem stopOnError_cuts (E : Engine) (depth : Int) (name : String) (args : Store) (w : World) :
    (∀ fuel o, (E.stopping false).call fuel depth name args w = some o →
      (o.Missed ↔ E.findFunction? name = none)) ∧
    ∀ fuel o, (E.stopping true).call fuel depth name args w = some o →
      (¬ o.Missed → (E.stopping false).call fuel depth name args w = some o) ∧
      (o.Missed → ∀ fuel' o', (E.stopping false).call fuel' depth name args w = some o' →
        o.world.frames <+: o'.world.frames ∧ o.world.messages <+: o'.world.messages) := by
  refine ⟨?_, ?_⟩
  · intro fuel o h
    exact call_missed_iff h
  · intro fuel o h
    refine ⟨?_, ?_⟩
    · intro hfound
      cases call_cuts run_cuts h with
      | same hsame _ => exact hsame
      | missed hmissed _ => exact absurd hmissed hfound
    · intro hmissed fuel' o' h'
      -- with fuel enough for both calls, they can be compared
      have hmax := call_mono (Nat.le_max_left fuel fuel') h
      have hmax' := call_mono (Nat.le_max_right fuel fuel') h'
      cases call_cuts run_cuts hmax with
      | same _ hfound => exact absurd hmissed hfound
      | missed _ htrace =>
          have hkept := htrace o' hmax'
          exact ⟨hkept.filterMap _, hkept.filterMap _⟩

/-- A function `f` that calls another one, `g`, in which an instruction is missing. -/
def patchy : Engine where
  frameSize := none
  instructions := [("mark", ⟨"mark", .number 3, [⟨"x", "u8", "", ""⟩], ""⟩)]
  functions :=
    [("f", .make "f" [] [.callFunction "g" {} "",
      .callInstruction "mark" (.ofList [("x", ⟨"int", "2"⟩)]) ""] ""),
    ("g", .make "g" [] [.callInstruction "mark" (.ofList [("x", ⟨"int", "1"⟩)]) "",
      .callInstruction "none" {} ""] "")]

theorem stopOnError_cuts_patchy :
    ∃ o o', (patchy.stopping true).call 9 0 "f" {} ⟨{}, #[]⟩ = some o ∧
      (patchy.stopping false).call 9 0 "f" {} ⟨{}, #[]⟩ = some o' ∧
      o.result = .error (.error (.unknown .instruction "none")) ∧ o'.result = .ok none ∧
      o.world.frames <+: o'.world.frames ∧ o.world.messages <+: o'.world.messages := by
  have hstop : ((patchy.stopping true).call 9 0 "f" {} ⟨{}, #[]⟩).map (·.result) =
      some (.error (.error (.unknown .instruction "none"))) := by
    decide +kernel
  have hgo : ((patchy.stopping false).call 9 0 "f" {} ⟨{}, #[]⟩).map (·.result) =
      some (.ok none) := by
    decide +kernel
  obtain ⟨o, ho, hresult⟩ := Option.map_eq_some_iff.1 hstop
  obtain ⟨o', ho', hresult'⟩ := Option.map_eq_some_iff.1 hgo
  have hkept := ((stopOnError_cuts patchy 0 "f" {} _).2 9 o ho).2 ⟨_, _, hresult⟩ 9 o' ho'
  exact ⟨o, o', ho, ho', hresult, hresult', hkept⟩

end Engine

end BusScript
