import BusScript.Proofs.Action
import BusScript.Proofs.Escape

/-!
# A limit on the depth of calls

An engine with a limit refuses calls that are nested too deeply. The refusal is
a fault that no caller tolerates, so it ends all that led to it, and up to it
the limit has no influence: `depthLimit_conservative`. A call that was not
refused has the same outcome under every higher limit; one that was refused has
left the beginning of what it would have left.

A refusal has to name the depth and the limit. Where one of them is too long to
be written, it is no such fault (`Refusal.overlong`), and a call that ends so
need not end in the same way under a higher limit.
-/

namespace BusScript

/-- A call has ended with the fault `depth`: calls were nested too deeply. -/
def Outcome.Refused (o : Outcome) : Prop :=
  ∃ level limit function, o.result = .error (.error (.depth level limit function))

namespace Engine

/-- The engine with another `maxCallDepth`, or with none. -/
def withLimit (E : Engine) (limit : Option Int) : Engine := { E with maxCallDepth := limit }

/-- The outcome `o` of a run against the outcome `o'?` of the run under another limit: they are
the same and nothing was `Refused`, or the first is a `Refusal` in a world whose trace the other
one goes on from. -/
inductive Outruns (level limit : Int) (o : Outcome) (o'? : Option Outcome) : Prop
  | same (h : o'? = some o) (hfree : ¬ o.Refused) : Outruns level limit o o'?
  | refused {name : String} {w : World} (hr : Refusal level limit name w o)
      (htrace : ∀ o', o'? = some o' → w.trace.toList <+: o'.world.trace.toList) :
      Outruns level limit o o'?

variable {E : Engine} {fuel : Nat} {depth level d : Int} {limit : Option Int} {a : Activation}
  {s : Statement} {w : World}

/-! ### Refusals end all that led to them -/

/-- A `Refusal` ends the caller as well, with the same outcome. -/
theorem follow_of_refusal {name : String} {o : Outcome} (h : Refusal level d name w o) :
    E.follow fuel depth (E.resume a o.result o.world) = some o := by
  cases h with
  | fault hlevel hlimit => simp [resume, tolerates, Fault.isUnknown]
  | overlong hlong => simp [resume, tolerates]

/-- A statement ends its call with an outcome that is `Refused` only if what it calls does. -/
theorem Action.not_refused {call : String → Store → World → Option Outcome} {f : Failure Fault}
    {w' : World} (h : E.Action call a s w (.stop f w'))
    (hcall : ∀ actuals o, (a.memory w).actuals s = .ok actuals →
      call s.content actuals w = some o → ¬ o.Refused) :
    ¬ (⟨.error f, w'⟩ : Outcome).Refused := by
  rintro ⟨level, limit, name, hf⟩
  cases hf
  generalize ht : Turn.stop _ w' = t at h
  cases h with
  | @send actuals hform hactuals =>
      rcases E.resume_cases a (E.send s.content actuals w).1 (E.send s.content actuals w).2 with
        hr | ⟨g, hg, -, hr⟩ <;> rw [hr] at ht <;> cases ht
      obtain ⟨frame, text, hsend⟩ | ⟨-, hsend⟩ | ⟨e, hsend⟩ | ⟨n, -, -, hsend⟩ :=
        E.send_cases s.content actuals w <;> rw [hsend] at hg <;> cases hg
  | @call actuals o hform hactuals hcalled =>
      rcases E.resume_cases a o.result o.world with hr | ⟨g, hg, -, hr⟩ <;> rw [hr] at ht <;>
        cases ht
      exact hcall actuals o hactuals hcalled ⟨level, limit, name, hg⟩
  | _ => cases ht

/-! ### Calls under two limits -/

/-- A depth is within the limit `d` exactly if `exceeded?` finds nothing. -/
theorem depth_le_iff_exceeded? (hd : E.maxCallDepth = some d) :
    E.exceeded? depth = none ↔ depth ≤ d := by
  simp [exceeded?, hd]

/-- A function that is entered under a limit is entered under a higher one. -/
theorem entry_withLimit {name : String} {f : Function} (hd : E.maxCallDepth = some d)
    (hle : ∀ d', limit = some d' → d ≤ d') (h : E.entry depth name w = .ok f) :
    (E.withLimit limit).entry depth name w = .ok f := by
  obtain ⟨hf, hdepth⟩ := entry_eq_ok_iff.1 h
  refine entry_eq_ok_iff.2 ⟨hf, ?_⟩
  rw [depth_le_iff_exceeded? hd] at hdepth
  cases hlimit : limit with
  | none => rfl
  | some d' =>
      have hd' := hle d' hlimit
      exact (depth_le_iff_exceeded? (E := E.withLimit (some d')) rfl).2 (by omega)

/-- If runs at `depth` are related by `Outruns`, so are calls, which may be refused themselves.
-/
theorem call_outruns (hd : E.maxCallDepth = some d) (hle : ∀ d', limit = some d' → d ≤ d')
    (hrun : ∀ {a : Activation} {w : World} {o : Outcome}, E.run fuel depth a w = some o →
      Outruns (max (depth + 1) (d + 1)) d o ((E.withLimit limit).run fuel depth a w))
    {name : String} {args : Store} {o : Outcome} (h : E.call fuel depth name args w = some o) :
    Outruns (max depth (d + 1)) d o ((E.withLimit limit).call fuel depth name args w) := by
  rw [call_eq] at h
  cases hentry : E.entry depth name w with
  | error o' =>
      rw [hentry] at h
      cases h
      rcases entry_error_cases hentry with ⟨hf, rfl⟩ | ⟨limit', hlimit, hr⟩
      · refine .same ?_ ?_
        · have hf' : (E.withLimit limit).findFunction? name = none := hf
          rw [call_eq]
          simp only [entry, hf']
        · rintro ⟨level, limit', function, hrefused⟩
          cases hrefused
      · obtain ⟨hmax, hlt⟩ := exceeded?_eq_some_iff.1 hlimit
        cases hd.symm.trans hmax
        have hlevel : max depth (d + 1) = depth := by omega
        rw [hlevel]
        exact .refused hr fun o' ho' => trace_prefix_of_call ho'
  | ok f =>
      rw [hentry] at h
      have hdepth := depth_le_of_entry hd hentry
      have hlevel : max depth (d + 1) = max (depth + 1) (d + 1) := by omega
      rw [call_eq, entry_withLimit hd hle hentry, hlevel]
      exact hrun h

/-- A step under two limits: it is the same, or a call that it makes is refused under the lower
one. -/
theorem step_outruns
    (hcall : ∀ {name : String} {args : Store} {w : World} {o : Outcome},
      E.call fuel (depth + 1) name args w = some o →
        Outruns level d o ((E.withLimit limit).call fuel (depth + 1) name args w))
    {t : Turn} (h : E.step (E.call fuel (depth + 1)) a s w = some t) :
    ((E.withLimit limit).step ((E.withLimit limit).call fuel (depth + 1)) a s w = some t ∧
      ∀ f w', t = .stop f w' → ¬ (⟨.error f, w'⟩ : Outcome).Refused) ∨
    ∃ o name w₁, Refusal level d name w₁ o ∧ E.follow fuel depth t = some o ∧
      ∀ t', (E.withLimit limit).step ((E.withLimit limit).call fuel (depth + 1)) a s w = some t' →
        w₁.trace.toList <+: t'.world.trace.toList := by
  by_cases hcalls : s.form = .callFunction ∧ ∃ actuals, (a.memory w).actuals s = .ok actuals
  · obtain ⟨hform, actuals, hactuals⟩ := hcalls
    have hstep := h
    rw [step_callFunction hform hactuals] at h ⊢
    obtain ⟨o, ho, rfl⟩ := Option.map_eq_some_iff.1 h
    cases hcall ho with
    | same hsame hfree =>
        refine .inl ⟨by rw [hsame]; rfl, ?_⟩
        intro f w' ht
        rw [ht] at hstep
        refine (action_of_step hstep).not_refused ?_
        intro actuals' o' hactuals' ho'
        cases hactuals.symm.trans hactuals'
        cases ho.symm.trans ho'
        exact hfree
    | @refused name w₁ hr htrace =>
        refine .inr ⟨o, name, w₁, hr, follow_of_refusal hr, ?_⟩
        intro t' ht'
        obtain ⟨o', ho', rfl⟩ := Option.map_eq_some_iff.1 ht'
        rw [world_resume]
        exact htrace o' ho'
  · -- how functions are called does not matter to the statement
    have hsame : ∀ call, (E.withLimit limit).step call a s w = some t := by
      intro call
      by_cases hform : s.form = .callFunction
      · cases hactuals : (a.memory w).actuals s with
        | ok actuals => exact absurd ⟨hform, actuals, hactuals⟩ hcalls
        | error e => simpa only [step, hform, hactuals] using h
      · exact (step_of_form_ne hform).trans h
    refine .inl ⟨hsame _, ?_⟩
    rintro f w' rfl
    refine (action_of_step (hsame fun _ _ _ => none)).not_refused ?_
    intro actuals o hactuals ho
    cases ho

/-- A run under a limit and the one under a higher limit are related by `Outruns`. -/
theorem run_outruns (hd : E.maxCallDepth = some d) (hle : ∀ d', limit = some d' → d ≤ d')
    {o : Outcome} (h : E.run fuel depth a w = some o) :
    Outruns (max (depth + 1) (d + 1)) d o ((E.withLimit limit).run fuel depth a w) := by
  induction fuel generalizing depth a w o with
  | zero => simp at h
  | succ fuel ih =>
      cases hs : a.current? with
      | none =>
          rw [run_of_over hs] at h ⊢
          cases h
          refine .same rfl ?_
          rintro ⟨level, limit', function, hrefused⟩
          unfold Activation.finish at hrefused
          split at hrefused <;> cases hrefused
      | some s =>
          rw [run_of_current? hs] at h ⊢
          obtain ⟨t, ht, hfollow⟩ := Option.bind_eq_some_iff.1 h
          rcases step_outruns (fun ho => call_outruns hd hle ih ho) ht with
            ⟨hstep, hfree⟩ | ⟨o', name, w₁, hr, ho', htrace⟩
          · rw [hstep, Option.bind_some]
            cases t with
            | stop f w' =>
                cases hfollow
                exact .same rfl (hfree f w' rfl)
            | next a' w' => exact ih hfollow
          · cases hfollow.symm.trans ho'
            refine .refused hr ?_
            intro o'' ho''
            obtain ⟨t', ht', hfollow'⟩ := Option.bind_eq_some_iff.1 ho''
            exact (htrace t' ht').trans (trace_prefix_of_follow hfollow')

/-! ### The influence of a limit -/

/-- **The limit on the depth of calls is conservative.** A call that is not `Refused` has the
same outcome, with the same variables, frames and messages, under every higher limit and without
one (`withLimit`), unless the depth that is refused or the limit is not `writable`. A call that
is refused has sent a beginning of the frames, and logged a beginning of the messages before its
last one, that it sends and logs under a higher limit. -/
theorem depthLimit_conservative (E : Engine) {d : Int} {limit : Option Int}
    (hd : E.maxCallDepth = some d) (hle : ∀ d', limit = some d' → d ≤ d') {fuel : Nat}
    {depth : Int} {name : String} {args : Store} {w : World} {o : Outcome}
    (h : E.call fuel depth name args w = some o) :
    (¬ o.Refused →
      (E.withLimit limit).call fuel depth name args w = some o ∨
      o.result = .error .unwritable ∧
        (Numeral.writable (max depth (d + 1)) = false ∨ Numeral.writable d = false)) ∧
    ∀ level limit' function, o.result = .error (.error (.depth level limit' function)) →
      ∀ fuel' o', (E.withLimit limit).call fuel' depth name args w = some o' →
        ∃ before, o.world.messages =
            before ++ [(.fatal, (Fault.depth level limit' function).message)] ∧
          before <+: o'.world.messages ∧ o.world.frames <+: o'.world.frames := by
  constructor
  · intro hfree
    cases call_outruns hd hle (run_outruns hd hle) h with
    | same hsame _ => exact .inl hsame
    | refused hr _ =>
        cases hr with
        | fault hlevel hlimit => exact absurd ⟨_, _, _, rfl⟩ hfree
        | overlong hlong => exact .inr ⟨rfl, hlong⟩
  · intro level limit' function hres fuel' o' ho'
    -- with fuel enough for both runs, they can be compared
    have hmax := call_mono (Nat.le_max_left fuel fuel') h
    have hmax' := call_mono (Nat.le_max_right fuel fuel') ho'
    cases call_outruns hd hle (run_outruns hd hle) hmax with
    | same _ hfree => exact absurd ⟨_, _, _, hres⟩ hfree
    | @refused function' w₁ hr htrace =>
        have hprefix := htrace o' hmax'
        cases hr with
        | overlong hlong => cases hres
        | fault hlevel hlimit =>
            cases hres
            refine ⟨w₁.messages, World.messages_log .., hprefix.filterMap _, ?_⟩
            rw [World.frames_log]
            exact hprefix.filterMap _

/-- Functions that call one another, `h` at depth two, with a limit of one. -/
def chained : Engine where
  maxCallDepth := some 1
  functions :=
    [("f", .make "f" [] [.callFunction "g" {} ""] ""),
    ("g", .make "g" [] [.callFunction "x" {} "", .callFunction "h" {} ""] ""),
    ("h", .make "h" [] [.ret "int:1" ""] "")]

theorem depthLimit_conservative_chained :
    chained.maxCallDepth = some 1 ∧
    ∃ o o', chained.call 9 0 "f" {} ⟨{}, #[]⟩ = some o ∧
      (chained.withLimit (some 2)).call 9 0 "f" {} ⟨{}, #[]⟩ = some o' ∧
      o.result = .error (.error (.depth 2 1 "h")) ∧
      ∃ before, o.world.messages = before ++ [(.fatal, "Call depth 2 exceeds 1 in function 'h'")] ∧
        before <+: o'.world.messages ∧ o.world.frames <+: o'.world.frames := by
  have hlow : (chained.call 9 0 "f" {} ⟨{}, #[]⟩).map (·.result) =
      some (.error (.error (.depth 2 1 "h"))) := by
    decide +kernel
  have hhigh : ((chained.withLimit (some 2)).call 9 0 "f" {} ⟨{}, #[]⟩).isSome = true := by
    decide +kernel
  obtain ⟨o, ho, hres⟩ := Option.map_eq_some_iff.1 hlow
  obtain ⟨o', ho'⟩ := Option.isSome_iff_exists.1 hhigh
  have htext : (Fault.depth 2 1 "h").message = "Call depth 2 exceeds 1 in function 'h'" := by
    decide +kernel
  have hle : ∀ d' : Int, some 2 = some d' → 1 ≤ d' := by
    intro d' hd'
    cases hd'
    decide
  have hbefore := (depthLimit_conservative chained rfl hle ho).2 _ _ _ hres 9 o' ho'
  rw [htext] at hbefore
  exact ⟨rfl, o, o', ho, ho', hres, hbefore⟩

/-! ### A depth that is too long -/

/-- A function that calls another one, with the limit `d`, which is met there if the first is
called at depth `d`. -/
def nestedAt (d : Int) : Engine where
  maxCallDepth := some d
  functions :=
    [("f", .make "f" [] [.callFunction "g" {} ""] ""), ("g", .make "g" [] [] "")]

/-- The greatest integer that is `writable`. -/
def longest : Int := (Nat.pow 10 Numeral.maxDigits : Int) - 1

theorem not_writable_longest : Numeral.writable (longest + 1) = false := by
  have hsucc : longest + 1 = (Nat.pow 10 Numeral.maxDigits : Int) := Int.sub_add_cancel _ _
  rw [hsucc, Numeral.writable, Int.natAbs_natCast]
  exact decide_eq_false (Nat.lt_irrefl _)

/-- Where the depth `d + 1` is too long, a call that is not `Refused` ends in another way than
without a limit. -/
theorem call_nestedAt {d : Int} (hw : Numeral.writable (d + 1) = false) :
    ∃ o, (nestedAt d).call 2 d "f" {} ⟨{}, #[]⟩ = some o ∧ ¬ o.Refused ∧
      ∀ fuel, ((nestedAt d).withLimit none).call fuel d "f" {} ⟨{}, #[]⟩ ≠ some o := by
  have hentry : (nestedAt d).entry d "f" ⟨{}, #[]⟩ =
      .ok (.make "f" [] [.callFunction "g" {} ""] "") :=
    entry_eq_ok_iff.2 ⟨rfl, (depth_le_iff_exceeded? rfl).2 (Int.le_refl d)⟩
  have hlong :
      (nestedAt d).DepthWrites (d + 1) (Statement.callFunction "g" {} "").content (d + 1) :=
    .depth (f := .make "g" [] [] "") rfl rfl (Int.lt_succ d)
  refine ⟨⟨.error .unwritable, (World.record ⟨{}, #[]⟩ (.enter "f")).forgetReturn⟩, ?_, ?_, ?_⟩
  · rw [call_eq, hentry]
    dsimp only
    rw [run_of_current? rfl, step_callFunction rfl rfl, call_eq, entry_of_depthWrites hlong hw]
    rfl
  · rintro ⟨level, limit, function, hrefused⟩
    cases hrefused
  · intro fuel hfuel
    have hends : ∃ w, ((nestedAt d).withLimit none).call 3 d "f" {} ⟨{}, #[]⟩ =
        some ⟨.ok none, w⟩ :=
      ⟨_, rfl⟩
    obtain ⟨w, hw'⟩ := hends
    have hmax := call_mono (Nat.le_max_left fuel 3) hfuel
    have hmax' := call_mono (Nat.le_max_right fuel 3) hw'
    cases hmax.symm.trans hmax'

/-- A call that is nested one level deeper than `longest`. -/
theorem depthLimit_not_conservative_longest :
    ∃ o, (nestedAt longest).call 2 longest "f" {} ⟨{}, #[]⟩ = some o ∧ ¬ o.Refused ∧
      ∀ fuel, ((nestedAt longest).withLimit none).call fuel longest "f" {} ⟨{}, #[]⟩ ≠ some o :=
  call_nestedAt not_writable_longest

end Engine

end BusScript
