import BusScript.Proofs.FailStop
import BusScript.Proofs.Footprint
import BusScript.Proofs.Journal

/-!
# Registered functions

The loops of a function are checked when it is registered, and only then:
statements that are added later may leave a loop open. This module follows the
registry through all sessions that begin without functions.

* `inForce_of_journal` says what is registered under a name: the function that
  was last registered under it, with the statements that were added since.
* `exists_unpaired_of_call` says where a run finds loops that are not paired up:
  in a function that the called one can reach.

What is registered was balanced, so such a function has grown since
(`registry_safe`). Without added statements no run ever ends that way.
-/

namespace BusScript

open Relation (ReflTransGen)

namespace Function

/-- The function `g` has the statements of `f`, followed by `added`. -/
structure Extends (g f : Function) (added : List Statement) : Prop where
  name : g.name = f.name
  params : g.params = f.params
  note : g.note = f.note
  body : g.body = f.body ++ added

theorem Extends.append {g f : Function} {added : List Statement} (h : g.Extends f added)
    (s : Statement) : (g.append s).Extends f (added ++ [s]) where
  name := h.name
  params := h.params
  note := h.note
  body := by
    show g.body ++ [s] = _
    rw [h.body, List.append_assoc]

/-- What `validate` accepts is `Balanced`, and is left as it is. -/
theorem validate_eq_ok {f g : Function} (h : f.validate = .ok g) :
    g.Extends f [] ∧ Balanced (f.body.map (·.form)) := by
  unfold validate at h
  split at h
  · cases h
  · rename_i index hindex
    cases h
    have hbalanced := Block.balanced_iff_loopIndex.2 ⟨index, hindex⟩
    exact ⟨⟨rfl, rfl, rfl, (List.append_nil _).symm⟩, hbalanced⟩

theorem validate_eq_error {f : Function} {e : LoopFault} (h : f.validate = .error e) :
    ¬ Balanced (f.body.map (·.form)) := by
  intro hbalanced
  obtain ⟨index, hindex⟩ := Block.balanced_iff_loopIndex.1 hbalanced
  unfold validate at h
  split at h
  · rename_i hindex'
    exact absurd (hindex.symm.trans hindex') nofun
  · cases h

end Function

/-! ### Where loops are not paired up -/

/-- A call ends with `structural` only if there are loops that do not pair up in a function that
the called one can reach by `MayCall`. -/
theorem Engine.exists_unpaired_of_call {E : Engine} {fuel : Nat} {depth : Int} {name : String}
    {args : Store} {w w' : World} {e : LoopFault}
    (h : E.call fuel depth name args w = some ⟨.error (.error (.structural e)), w'⟩) :
    ∃ f g, E.findFunction? name = some f ∧ ReflTransGen E.MayCall f g ∧
      g.loopIndex = .error e := by
  rw [call_eq] at h
  cases hentry : E.entry depth name w with
  | error o =>
      rw [hentry] at h
      cases h
      obtain ⟨hr, -⟩ := entry_eq_fault_iff.1 hentry
      cases hr
  | ok f =>
      rw [hentry] at h
      obtain ⟨c, hvisit, hraises, -⟩ := exists_raises_of_run h
      refine ⟨f, c.activation.function, (entry_eq_ok_iff.1 hentry).1, mayCall_of_visits hvisit, ?_⟩
      cases hraises with
      | send _ hr => cases hr
      | entry _ _ _ hr => cases hr
      | unpaired hs hform he => exact he

/-! ### The registry of a journal -/

namespace Entry

/-- An entry registers the function `f`: the command is answered with `done`. -/
def Registers (x : Entry) (f : Function) : Prop :=
  x.command = .addFunction f ∧ x.response.reply = .done

/-- The statements that an entry adds to the function that is registered under `name`. -/
def added (name : String) (x : Entry) : List Statement :=
  match x.command, x.response.reply with
  | .appendStatement function s, .done => if function = name then [s] else []
  | _, _ => []

end Entry

/-- The function `f` was registered, and in the `later` entries none of its name. -/
structure LastRegistered (entries : List Entry) (f : Function) (later : List Entry) : Prop where
  registered : ∃ before x, entries = before ++ x :: later ∧ x.Registers f
  last : ∀ x ∈ later, ∀ g, x.Registers g → g.name ≠ f.name

/-- What the entries of a journal leave registered under `name`: nothing if no function of that
name was registered, else the last one (`LastRegistered`), with all statements that were `added`
to it since. -/
inductive InForce (name : String) (entries : List Entry) : Option Function → Prop
  | never (h : ∀ x ∈ entries, ∀ f, x.Registers f → f.name ≠ name) : InForce name entries none
  | last {f g : Function} {later : List Entry} (hname : f.name = name)
      (hlast : LastRegistered entries f later)
      (hg : g.Extends f (later.flatMap (·.added name))) : InForce name entries (some g)

/-- The loops of `g` do not pair up, after statements were `added` to what was registered. -/
structure Outgrown (entries : List Entry) (g : Function) : Prop where
  unbalanced : ¬ Balanced (g.body.map (·.form))
  grown : ∃ f later, LastRegistered entries f later ∧
    g.Extends f (later.flatMap (·.added g.name)) ∧ later.flatMap (·.added g.name) ≠ []

variable {entries later : List Entry} {x : Entry} {name : String} {f g : Function}

theorem LastRegistered.start (hx : x.Registers f) : LastRegistered (entries ++ [x]) f [] where
  registered := ⟨entries, x, rfl, hx⟩
  last _ hy := absurd hy List.not_mem_nil

theorem LastRegistered.snoc (h : LastRegistered entries f later)
    (hx : ∀ g, x.Registers g → g.name ≠ f.name) :
    LastRegistered (entries ++ [x]) f (later ++ [x]) where
  registered := by
    obtain ⟨before, y, rfl, hy⟩ := h.registered
    exact ⟨before, y, by simp, hy⟩
  last := List.forall_mem_append.2 ⟨h.last, List.forall_mem_singleton.2 hx⟩

/-- The function that is registered under `name` has that name. -/
theorem InForce.name_eq (h : InForce name entries (some f)) : f.name = name := by
  cases h with
  | last hname hlast hg => exact hg.name.trans hname

/-- An entry that is about other names leaves what is `InForce`. -/
theorem InForce.snoc {f? : Option Function} (h : InForce name entries f?)
    (hx : ∀ g, x.Registers g → g.name ≠ name) (hadded : x.added name = []) :
    InForce name (entries ++ [x]) f? := by
  cases h with
  | never h => exact .never (List.forall_mem_append.2 ⟨h, List.forall_mem_singleton.2 hx⟩)
  | @last f g later hname hlast hg =>
      subst hname
      refine .last rfl (hlast.snoc hx) ?_
      rw [List.flatMap_append, List.flatMap_singleton, hadded, List.append_nil]
      exact hg

/-- An entry that adds a statement by `appendStatement` adds it to what is `InForce`. -/
theorem InForce.append {s : Statement} (h : InForce name entries (some g))
    (hcommand : x.command = .appendStatement name s) (hreply : x.response.reply = .done) :
    InForce name (entries ++ [x]) (some (g.append s)) := by
  cases h with
  | @last f g later hname hlast hg =>
      subst hname
      refine .last rfl (hlast.snoc fun f' hf' => ?_) ?_
      · exact absurd (hcommand.symm.trans hf'.1) nofun
      · rw [List.flatMap_append, List.flatMap_singleton, Entry.added, hcommand, hreply]
        simpa using hg.append s

namespace Session

variable {s₀ s s' : Session} {E E' : Engine} {fuel : Nat} {command : Command} {reply : Reply}

/-- One more entry, and what it does to the registry: what the engine finds is `InForce` again.
-/
theorem inForce_of_rebuilds (h : ∀ name, InForce name entries (E.findFunction? name))
    (hcommand : x.command = command) (hreply : x.response.reply = reply)
    (hx : Rebuilds E command reply E') (name : String) :
    InForce name (entries ++ [x]) (E'.findFunction? name) := by
  cases hx with
  | instruction i =>
      refine (h name).snoc ?_ ?_
      · intro g hg
        exact absurd (hcommand.symm.trans hg.1) nofun
      · simp [Entry.added, hcommand]
  | @function f _ hf =>
      obtain ⟨g, hvalid, rfl⟩ := Engine.addFunction_eq_ok hf
      obtain ⟨hextends, -⟩ := Function.validate_eq_ok hvalid
      rw [Engine.findFunction?_put]
      by_cases hname : name = g.name
      · rw [if_pos hname]
        exact .last (hname.trans hextends.name).symm (.start ⟨hcommand, hreply⟩) hextends
      · rw [if_neg hname]
        refine (h name).snoc ?_ ?_
        · intro f' hf'
          obtain rfl : f = f' := Command.addFunction.inj (hcommand.symm.trans hf'.1)
          exact fun heq => hname (heq.symm.trans hextends.name.symm)
        · simp [Entry.added, hcommand]
  | @statement appended f s hf =>
      rw [Engine.appendStatement_of_find hf, Engine.findFunction?_put]
      by_cases hname : name = appended
      · subst hname
        rw [if_pos rfl]
        exact InForce.append (hf ▸ h name) hcommand hreply
      · rw [if_neg hname]
        refine (h name).snoc ?_ ?_
        · intro g hg
          exact absurd (hcommand.symm.trans hg.1) nofun
        · simp [Entry.added, hcommand, hreply, Ne.symm hname]
  | keep hfunction hstatement =>
      refine (h name).snoc ?_ ?_
      · intro g hg
        exact absurd (hreply.symm.trans hg.2) (hfunction g (hcommand.symm.trans hg.1))
      · unfold Entry.added
        split
        · rename_i appended s hcommand' hreply'
          exact absurd (hreply.symm.trans hreply') (hstatement _ _ (hcommand.symm.trans hcommand'))
        · rfl

/-- In all sessions that begin without functions, `findFunction?` finds what is `InForce` by the
journal. -/
theorem inForce_of_journal (hnew : s₀.engine.functions = []) (h : s₀.Journal entries s)
    (name : String) : InForce name entries (s.engine.findFunction? name) := by
  induction h generalizing name with
  | nil =>
      rw [Engine.findFunction?, hnew]
      exact .never fun x hx => absurd hx List.not_mem_nil
  | snoc _ _ hleft ih => exact inForce_of_rebuilds ih rfl rfl hleft.rebuilds name

theorem Rebuilds.balanced (h : Rebuilds E (.addFunction f) .done E') :
    Balanced (f.body.map (·.form)) := by
  cases h with
  | function hf =>
      obtain ⟨g, hvalid, -⟩ := Engine.addFunction_eq_ok hf
      exact (Function.validate_eq_ok hvalid).2
  | keep hfunction hstatement => exact absurd rfl (hfunction f rfl)

/-- What an entry `Registers` was `Balanced`. -/
theorem balanced_of_journal (h : s₀.Journal entries s) (hx : x ∈ entries) (hf : x.Registers f) :
    Balanced (f.body.map (·.form)) := by
  induction h with
  | nil => exact absurd hx List.not_mem_nil
  | snoc _ _ hleft ih =>
      rcases List.mem_append.1 hx with hx | hx
      · exact ih hx
      · have hrebuilds := hleft.rebuilds
        rw [← List.mem_singleton.1 hx, hf.1, hf.2] at hrebuilds
        exact hrebuilds.balanced

/-- A registered function that is not `Balanced` is `Outgrown`. -/
theorem outgrown_of_not_balanced (h : s₀.Journal entries s)
    (hg : InForce g.name entries (some g)) (hbalanced : ¬ Balanced (g.body.map (·.form))) :
    Outgrown entries g := by
  refine ⟨hbalanced, ?_⟩
  cases hg with
  | @last f g later hname hlast hextends =>
      refine ⟨f, later, hlast, hextends, ?_⟩
      -- else it would still be the function that was checked
      intro hnone
      obtain ⟨before, x, rfl, hx⟩ := hlast.registered
      have hf := balanced_of_journal h (List.mem_append_right _ List.mem_cons_self) hx
      rw [hextends.body, hnone, List.append_nil] at hbalanced
      exact hbalanced hf

/-- What a called function can reach by `MayCall` is registered under its own name. -/
theorem findFunction?_of_mayCall (hnew : s₀.engine.functions = []) (h : s₀.Journal entries s)
    (hf : s.engine.findFunction? name = some f) (hfg : ReflTransGen s.engine.MayCall f g) :
    s.engine.findFunction? g.name = some g := by
  have hnamed : ∀ {name g}, s.engine.findFunction? name = some g →
      s.engine.findFunction? g.name = some g := by
    intro name g hg
    have hforce := inForce_of_journal hnew h name
    rw [hg] at hforce
    rw [hforce.name_eq, hg]
  -- only the last call on the way matters, which names `g`
  cases hfg with
  | refl => exact hnamed hf
  | tail _ hcall =>
      obtain ⟨s, -, -, hg⟩ := hcall
      exact hnamed hg

/-! ### Registering and calling -/

/-- A command that needs no context is answered as it acts by `act`. -/
theorem exists_perform {name : Option String} {u : World} (hneeds : command.needsContext = false)
    (hact : act fuel s.engine (s.start name) command = some (reply, E, u)) :
    ∃ r s', s.perform fuel name command = some (r, s') ∧ r.reply = reply ∧ s'.engine = E := by
  cases hc : s.context? name with
  | none =>
      rw [perform_alone hc hneeds, hact]
      exact ⟨_, _, rfl, rfl, rfl⟩
  | some c =>
      obtain ⟨key, rfl, -⟩ := Option.bind_eq_some_iff.1 hc
      rw [perform_within hc, hact]
      exact ⟨_, _, rfl, rfl, rfl⟩

/-- A function is registered by `addFunction` exactly if its loops pair up; if not, the engine
stays as it is. -/
theorem perform_addFunction (fuel : Nat) (s : Session) (name : Option String) (f : Function) :
    ∃ r s', s.perform fuel name (.addFunction f) = some (r, s') ∧
      (Balanced (f.body.map (·.form)) ∧ r.reply = .done ∨
        ¬ Balanced (f.body.map (·.form)) ∧ s'.engine = s.engine ∧
          ∃ e, r.reply = .failed (.error (.structural e))) := by
  cases hf : s.engine.addFunction f with
  | ok E =>
      have hact : act fuel s.engine (s.start name) (.addFunction f) =
          some (.done, E, s.start name) := by
        simp only [act, hf]
      obtain ⟨r, s', hperform, hreply, -⟩ := exists_perform rfl hact
      exact ⟨r, s', hperform, .inl ⟨(Rebuilds.function hf).balanced, hreply⟩⟩
  | error e =>
      have hact : act fuel s.engine (s.start name) (.addFunction f) =
          some (.failed (.error (.structural e)), s.engine,
            (s.start name).record (.alarm e.message)) := by
        simp only [act, hf]
      obtain ⟨r, s', hperform, hreply, hengine⟩ := exists_perform rfl hact
      have hbalanced := Function.validate_eq_error (Engine.addFunction_eq_error hf)
      exact ⟨r, s', hperform, .inr ⟨hbalanced, hengine, e, hreply⟩⟩

theorem act_of_performs {name : Option String} {r : Response} {u : World}
    (h : s.Performs fuel command name r s' u) (hneeds : command.needsContext = false) :
    act fuel s.engine (s.start name) command = some (r.reply, s'.engine, u) := by
  cases h with
  | within hc hact => exact hact
  | alone hc _ hact => exact hact
  | refused hc hneeds' => exact absurd (hneeds.symm.trans hneeds') nofun

/-- A `call` that is answered by a fault has ended by it. -/
theorem call_of_perform {key : Option String} {args : Store} {depth : Int} {r : Response}
    {fault : Failure Fault}
    (h : s.perform fuel key (.call name args depth) = some (r, s'))
    (hreply : r.reply = .failed fault) :
    ∃ w', s.engine.call fuel depth name args (s.start key) = some ⟨.error fault, w'⟩ := by
  obtain ⟨u, hu⟩ := performs_of_perform h
  have hact := act_of_performs hu rfl
  obtain ⟨⟨result, w'⟩, ho, heq⟩ := Option.map_eq_some_iff.1 hact
  have hresult : Reply.ofOutcome ⟨result, w'⟩ = .failed fault :=
    (congrArg (·.1) heq).trans hreply
  cases result with
  | ok v => cases hresult
  | error f =>
      cases hresult
      exact ⟨w', ho⟩

/-- A call that ends with `structural` can reach a registered function that is `Outgrown`. -/
theorem outgrown_of_perform (hnew : s₀.engine.functions = []) (h : s₀.Journal entries s)
    {key : Option String} {args : Store} {depth : Int} {r : Response} {e : LoopFault}
    (hperform : s.perform fuel key (.call name args depth) = some (r, s'))
    (hreply : r.reply = .failed (.error (.structural e))) :
    ∃ f g, s.engine.findFunction? name = some f ∧ ReflTransGen s.engine.MayCall f g ∧
      s.engine.findFunction? g.name = some g ∧ Outgrown entries g := by
  obtain ⟨w', ho⟩ := call_of_perform hperform hreply
  obtain ⟨f, g, hf, hfg, he⟩ := Engine.exists_unpaired_of_call ho
  have hg := findFunction?_of_mayCall hnew h hf hfg
  have hforce := inForce_of_journal hnew h g.name
  rw [hg] at hforce
  have hbalanced : ¬ Balanced (g.body.map (·.form)) := by
    intro hbalanced
    obtain ⟨index, hindex⟩ := Block.balanced_iff_loopIndex.1 hbalanced
    exact absurd (hindex.symm.trans he) nofun
  exact ⟨f, g, hf, hfg, hg, outgrown_of_not_balanced h hforce hbalanced⟩

/-- **The registry is safe.** In a session that began without functions, after any
commands:

* to register a function whose loops do not pair up fails, and changes neither
  functions nor instructions; any other one is registered;
* under every name stands the function that was last registered under it, with
  the statements that were added since (`InForce`);
* a call ends by loops that are not paired up only if it can reach a function whose
  loops do not pair up now, and to which statements were added after it was
  registered (`Outgrown`). So no call ends that way if statements are never added. -/
theorem registry_safe (hnew : s₀.engine.functions = []) (h : s₀.Journal entries s) :
    (∀ fuel name f, ∃ r s', s.perform fuel name (.addFunction f) = some (r, s') ∧
      (Balanced (f.body.map (·.form)) ∧ r.reply = .done ∨
        ¬ Balanced (f.body.map (·.form)) ∧ s'.engine = s.engine ∧
          ∃ e, r.reply = .failed (.error (.structural e)))) ∧
    (∀ name, InForce name entries (s.engine.findFunction? name)) ∧
    (∀ fuel key name args depth r s' e,
      s.perform fuel key (.call name args depth) = some (r, s') →
      r.reply = .failed (.error (.structural e)) →
      ∃ f g, s.engine.findFunction? name = some f ∧ ReflTransGen s.engine.MayCall f g ∧
        s.engine.findFunction? g.name = some g ∧ Outgrown entries g) ∧
    ((∀ x ∈ entries, ∀ name, x.added name = []) →
      ∀ fuel key name args depth r s' e,
        s.perform fuel key (.call name args depth) = some (r, s') →
        r.reply ≠ .failed (.error (.structural e))) := by
  refine ⟨?_, inForce_of_journal hnew h, ?_, ?_⟩
  · intro fuel name f
    exact perform_addFunction fuel s name f
  · intro fuel key name args depth r s' e hperform hreply
    exact outgrown_of_perform hnew h hperform hreply
  · intro hnone fuel key name args depth r s' e hperform hreply
    obtain ⟨f, g, -, -, -, houtgrown⟩ := outgrown_of_perform hnew h hperform hreply
    obtain ⟨f₀, later, hlast, -, hadded⟩ := houtgrown.grown
    obtain ⟨before, x, rfl, -⟩ := hlast.registered
    refine hadded (List.flatMap_eq_nil_iff.2 fun y hy => hnone y ?_ g.name)
    exact List.mem_append_right _ (List.mem_cons_of_mem _ hy)

/-- A session without functions and contexts. -/
def blank : Session := ⟨{}, []⟩

/-- A function `main` that calls another one, `f`. -/
def caller : Function := .make "main" [] [.callFunction "f" {} ""] ""

/-- A function `f` with one loop. -/
def looping : Function := .make "f" [] [.loop ⟨"int", "1"⟩ "", .endLoop ""] ""

/-- The `LoopFault` that a call was answered with, if it was. -/
def unpaired? : Reply → Option LoopFault
  | .failed (.error (.structural e)) => some e
  | _ => none

theorem unpaired?_eq_some {reply : Reply} {e : LoopFault} (h : unpaired? reply = some e) :
    reply = .failed (.error (.structural e)) := by
  unfold unpaired? at h
  split at h <;> cases h
  rfl

theorem registry_safe_blank :
    blank.engine.functions = [] ∧
    ∃ entries s f g, blank.Journal entries s ∧ s.engine.findFunction? "main" = some f ∧
      ReflTransGen s.engine.MayCall f g ∧ s.engine.findFunction? g.name = some g ∧
      Outgrown entries g := by
  have hrun : ((blank.perform 0 none (.addFunction caller)).bind fun x =>
      (x.2.perform 0 none (.addFunction looping)).bind fun x =>
      (x.2.perform 0 none (.appendStatement "f" (.loop ⟨"int", "2"⟩ ""))).bind fun x =>
      (x.2.perform 9 none (.call "main" {} 0)).map fun x => (unpaired? x.1.reply).isSome) =
        some true := by
    decide +kernel
  obtain ⟨⟨r₁, s₁⟩, h₁, hrun⟩ := Option.bind_eq_some_iff.1 hrun
  obtain ⟨⟨r₂, s₂⟩, h₂, hrun⟩ := Option.bind_eq_some_iff.1 hrun
  obtain ⟨⟨r₃, s₃⟩, h₃, hrun⟩ := Option.bind_eq_some_iff.1 hrun
  obtain ⟨⟨r, s⟩, h, hsome⟩ := Option.map_eq_some_iff.1 hrun
  obtain ⟨e, he⟩ := Option.isSome_iff_exists.1 hsome
  obtain ⟨u₁, hjournal⟩ := Journal.nil.perform h₁
  obtain ⟨u₂, hjournal⟩ := hjournal.perform h₂
  obtain ⟨u₃, hjournal⟩ := hjournal.perform h₃
  obtain ⟨f, g, hfg⟩ :=
    (registry_safe rfl hjournal).2.2.1 9 none "main" {} 0 r s e h (unpaired?_eq_some he)
  exact ⟨rfl, _, s₃, f, g, hjournal, hfg⟩

end Session

end BusScript
