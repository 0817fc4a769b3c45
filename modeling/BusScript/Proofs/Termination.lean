import BusScript.Proofs.Simulation

/-!
# Calls of bounded depth come to an end

With a limit on the depth of calls, every call has an outcome: `call_terminates`.

The machine itself jumps backwards, so the proof goes through structured
execution. A block has an end whenever the calls that it makes have one
(`isSome_run`): its statements are finitely many, and a loop has decided how
often it makes its passes before the first of them. What is left to bound are
the nested calls, and each of them is one level closer to the limit
(`isSome_interpret`).
-/

namespace BusScript

/-! ### Blocks -/

theorem Exit.isSome_andThen {x : Option Exit} {next : Store → World → Option Exit}
    (hx : x.isSome = true) (hnext : ∀ locals w, (next locals w).isSome = true) :
    (Exit.andThen x next).isSome = true := by
  obtain ⟨exit, rfl⟩ := Option.isSome_iff_exists.1 hx
  cases exit with
  | through locals w => exact hnext locals w
  | concluded c => rfl

/-- Passes have an end if the body has one each time. -/
theorem Exit.isSome_passes {body : Store → World → Option Exit}
    (hbody : ∀ locals w, (body locals w).isSome = true) (n : Nat) (locals : Store) (w : World) :
    (Exit.passes body n locals w).isSome = true := by
  induction n generalizing locals w with
  | zero => rfl
  | succ n ih => exact isSome_andThen (hbody locals w) ih

theorem Setting.isSome_perform {S : Setting}
    (hcall : ∀ name args w, (S.call name args w).isSome = true) (pos : Nat) (s : Statement)
    (locals : Store) (w : World) : (S.perform pos s locals w).isSome = true := by
  unfold perform
  cases s.form with
  | callInstruction => dsimp only; split <;> rfl
  | callFunction =>
      dsimp only
      split
      · rfl
      · rw [Option.isSome_map]
        exact hcall ..
  | _ => rfl

/-- A block has an end, by `Block.run`, if the calls that it makes have one. -/
theorem Block.isSome_run {S : Setting}
    (hcall : ∀ name args w, (S.call name args w).isSome = true) (b : Block) (pos : Nat)
    (locals : Store) (w : World) : (b.run S pos locals w).isSome = true := by
  induction b generalizing pos locals w with
  | done => rfl
  | plain s hs rest ih =>
      exact Exit.isSome_andThen (S.isSome_perform hcall pos s locals w) (ih (pos + 1))
  | loop s hs body close hc rest ihb ihr =>
      rw [Block.run]
      split
      · exact ihr ..
      · split
        · exact Exit.isSome_andThen (Exit.isSome_passes (ihb (pos + 1)) _ locals w) (ihr _)
        · rfl

/-! ### Calls -/

namespace Engine

variable {E : Engine} {limit : Int}

/-- A function is entered only at a depth within `maxCallDepth`. -/
theorem depth_le_of_entry {depth : Int} {name : String} {w : World} {f : Function}
    (hlimit : E.maxCallDepth = some limit) (h : E.entry depth name w = .ok f) :
    depth ≤ limit := by
  have hd := (entry_eq_ok_iff.1 h).2
  simp only [exceeded?, hlimit, Option.filter_eq_none_iff, Option.some.injEq,
    decide_eq_true_eq] at hd
  have := hd limit rfl
  omega

/-- As many levels as the limit leaves, and one more, are enough for `interpret`. -/
theorem isSome_interpret (hlimit : E.maxCallDepth = some limit) (admits : Int → Bool)
    {levels : Nat} {depth : Int} (hlevels : (limit - depth).toNat < levels) (f : Function)
    (args : Store) (w : World) : (E.interpret admits levels depth f args w).isSome = true := by
  induction levels generalizing depth f args w with
  | zero => omega
  | succ levels ih =>
      rw [interpret, Option.isSome_map]
      -- a call that is made has a level less to go, or is not entered
      refine Block.isSome_run (fun name args w => ?_) ..
      dsimp only
      cases hf : E.entry (depth + 1) name w with
      | error o => rfl
      | ok g =>
          have hle := depth_le_of_entry hlimit hf
          exact ih (by omega) g args _

theorem exists_call_of_limit (hlimit : E.maxCallDepth = some limit) (depth : Int) (name : String)
    (args : Store) (w : World) : ∃ n o, E.call n depth name args w = some o := by
  simp only [call_eq]
  cases E.entry depth name w with
  | error o => exact ⟨0, o, rfl⟩
  | ok f =>
      have hsome := isSome_interpret hlimit Numeral.writable
        (Nat.lt_succ_self (limit - depth).toNat) f args (w.record (.enter name)).forgetReturn
      obtain ⟨c, hc⟩ := Option.isSome_iff_exists.1 hsome
      obtain ⟨n, hn⟩ := (interpret_matches _ depth f args _).1 c hc
      exact ⟨n, c.toOutcome, hn⟩

/-- With a limit on the depth of calls (`maxCallDepth`), every call has an outcome, and has it
with all `fuel` from some amount on. -/
theorem call_terminates (E : Engine) {limit : Int} (hlimit : E.maxCallDepth = some limit)
    (depth : Int) (name : String) (args : Store) (w : World) :
    ∃ n o, ∀ fuel, n ≤ fuel → E.call fuel depth name args w = some o := by
  obtain ⟨n, o, hcall⟩ := exists_call_of_limit hlimit depth name args w
  exact ⟨n, o, fun fuel hfuel => call_mono hfuel hcall⟩

/-- A function `f` that calls itself from inside a loop. -/
def selfCalling : Function :=
  .make "f" [] [.loop ⟨"int", "2"⟩ "", .callFunction "f" {} "", .endLoop ""] ""

/-- Calls of `selfCalling`, down to a limit. -/
theorem call_terminates_selfCalling :
    ({ maxCallDepth := some 3, functions := [("f", selfCalling)] } : Engine).maxCallDepth =
        some 3 ∧
      ∃ n o, ∀ fuel, n ≤ fuel →
        ({ maxCallDepth := some 3, functions := [("f", selfCalling)] } : Engine).call fuel 0 "f"
          {} ⟨{}, #[]⟩ = some o :=
  ⟨rfl, call_terminates _ rfl 0 "f" {} ⟨{}, #[]⟩⟩

end Engine

end BusScript
