import BusScript.Proofs.Action
import BusScript.Proofs.Overlong
import BusScript.Session

/-!
# Frames that are sent

A frame leaves an engine in one way only: an instruction is called by its name,
its definition is looked up, the arguments are encoded, an info message
announces the frame, and the frame is sent. This module says so of everything
that a host can make an engine do.

`World.Emits` relates two worlds between which frames were sent, each of them
announced, and nothing else was said in info messages. What a configuration
does to the world keeps to it (`emits_of_acts`), hence whatever a run does
(`emits_of_changes`) and every command of a host but the one that logs a text of
its own (`emits_of_act`). `emissions_safe` says so of all sessions.
-/

namespace BusScript

/-! ### Announcements -/

/-- What is said of a frame before it is sent: its `render?`, if that can be written. -/
def Frame.announcement? (frame : Frame) : Option String :=
  frame.render?.map ("instruction data: " ++ ·)

/-! ### Worlds between which frames are sent -/

namespace World

/-- The texts of the messages of severity `info`, in order. -/
def infos (w : World) : List String := (w.messages.filter (·.1 = .info)).map (·.2)

theorem infos_log (w : World) (severity : Severity) (text : String) :
    (w.log severity text).infos = w.infos ++ if severity = .info then [text] else [] := by
  cases severity <;> simp [infos, List.filter_append]

theorem infos_send (w : World) (frame : Frame) : (w.record (.send frame)).infos = w.infos := by
  simp [infos, messages_record, Event.message?]

theorem frames_send (w : World) (frame : Frame) :
    (w.record (.send frame)).frames = w.frames ++ [frame] :=
  frames_record w (.send frame)

/-- From the world `w` to `w'`, frames with the property `P` are sent, each of them announced by
an info message, and there is no other info message. -/
def Emits (P : Frame → Prop) (w w' : World) : Prop :=
  ∃ sent, w'.frames = w.frames ++ sent ∧
    w'.infos.map some = w.infos.map some ++ sent.map Frame.announcement? ∧
    ∀ frame ∈ sent, P frame

variable {P Q : Frame → Prop} {w w' w'' : World}

/-- Nothing is sent where neither `frames` nor `infos` change. -/
theorem Emits.of_quiet (hframes : w'.frames = w.frames) (hinfos : w'.infos = w.infos) :
    Emits P w w' :=
  ⟨[], by simp [hframes], by simp [hinfos], by simp⟩

theorem Emits.refl (w : World) : Emits P w w := .of_quiet rfl rfl

theorem Emits.trans (h : Emits P w w') (h' : Emits P w' w'') : Emits P w w'' := by
  obtain ⟨sent, hframes, hinfos, hsent⟩ := h
  obtain ⟨sent', hframes', hinfos', hsent'⟩ := h'
  refine ⟨sent ++ sent', ?_, ?_, ?_⟩
  · rw [hframes', hframes, List.append_assoc]
  · rw [hinfos', hinfos, List.map_append, List.append_assoc]
  · intro frame hframe
    rcases List.mem_append.1 hframe with hframe | hframe
    · exact hsent frame hframe
    · exact hsent' frame hframe

theorem Emits.mono (hPQ : ∀ frame, P frame → Q frame) (h : Emits P w w') : Emits Q w w' := by
  obtain ⟨sent, hframes, hinfos, hsent⟩ := h
  exact ⟨sent, hframes, hinfos, fun frame hframe => hPQ frame (hsent frame hframe)⟩

/-- A text of a `serious` severity is logged. -/
theorem Emits.log {severity : Severity} (w : World) (text : String)
    (hserious : severity.serious = true) : Emits P w (w.log severity text) := by
  have hne : severity ≠ .info := by
    rintro rfl
    cases hserious
  exact .of_quiet (frames_log ..) (by simp [infos_log, hne])

/-- A frame is announced by its `render?` and sent. -/
theorem Emits.send {frame : Frame} {text : String} (w : World) (htext : frame.render? = some text)
    (hframe : P frame) :
    Emits P w ((w.log .info ("instruction data: " ++ text)).record (.send frame)) := by
  refine ⟨[frame], ?_, ?_, ?_⟩
  · rw [frames_send, frames_log]
  · simp [infos_send, infos_log, Frame.announcement?, htext]
  · intro f hf
    rw [List.mem_singleton.1 hf]
    exact hframe

/-- An event is recorded that is neither a frame nor a message. -/
theorem Emits.record {e : Event} (hframe : e.frame? = none) (hmessage : e.message? = none) :
    Emits P w (w.record e) :=
  .of_quiet (by simp [frames_record, hframe]) (by simp [infos, messages_record, hmessage])

theorem Emits.forgetReturn (w : World) : Emits P w w.forgetReturn := .of_quiet rfl rfl

/-- A function is entered, and `$return` is forgotten. -/
theorem Emits.enter (w : World) (name : String) :
    Emits P w (w.record (.enter name)).forgetReturn :=
  (Emits.record rfl rfl).trans (.forgetReturn _)

end World

namespace Engine

variable {E : Engine}

/-- A frame is what the definition that is registered under `name` makes of the `actuals`. -/
def Encodes (E : Engine) (name : String) (actuals : Store) (frame : Frame) : Prop :=
  ∃ i, E.findInstruction? name = some i ∧ i.encode E.frameSize actuals = .ok frame

/-- A call of an instruction sends nothing but a frame that it `Encodes`. -/
theorem emits_of_send (E : Engine) (name : String) (actuals : Store) (w : World) :
    World.Emits (E.Encodes name actuals) w (E.send name actuals w).2 := by
  unfold send
  cases hi : E.findInstruction? name with
  | none => exact .log w _ rfl
  | some i =>
      dsimp only
      cases hframe : i.encode E.frameSize actuals with
      | error f =>
          cases f with
          | error e => exact .log w _ rfl
          | unwritable => exact .refl w
      | ok frame =>
          dsimp only
          cases htext : frame.render? with
          | none => exact .refl w
          | some text => exact .send w htext ⟨i, hi, hframe⟩

/-- A call of an instruction that fails sends nothing and announces nothing. -/
theorem quiet_of_send {name : String} {actuals : Store} {w w' : World} {f : Failure Fault}
    (h : E.send name actuals w = (.error f, w')) : w'.frames = w.frames ∧ w'.infos = w.infos := by
  obtain ⟨frame, text, hsend⟩ | ⟨-, hsend⟩ | ⟨e, hsend⟩ | ⟨n, -, -, hsend⟩ :=
    E.send_cases name actuals w <;> rw [hsend] at h <;> cases h
  · exact ⟨World.frames_log .., by simp [World.infos_log]⟩
  · exact ⟨World.frames_log .., by simp [World.infos_log]⟩
  · exact ⟨rfl, rfl⟩

/-! ### Runs -/

/-- A frame is encoded for a call of an instruction at a configuration that is visited from
`start`. -/
def EncodesFrom (E : Engine) (start : Configuration) (frame : Frame) : Prop :=
  ∃ c name actuals, E.Visits start c ∧ Sends c name actuals ∧ E.Encodes name actuals frame

/-- What a statement sends itself is encoded for the call that it is. -/
theorem emits_of_acts {c : Configuration} {w' : World} (h : E.Acts c w') :
    World.Emits (fun frame => ∃ name actuals, Sends c name actuals ∧ E.Encodes name actuals frame)
      c.world w' := by
  cases h with
  | report text hserious => exact .log _ text hserious
  | assign hs hm => exact .of_quiet rfl rfl
  | keep v => exact .of_quiet rfl rfl
  | @send name actuals i frame text hsends hi hframe htext =>
      exact .send _ htext ⟨name, actuals, hsends, i, hi, hframe⟩
  | enter name => exact .enter _ name
  | forget => exact .forgetReturn _

open Relation (ReflTransGen)

/-- What is sent along a chain of `Changes` is encoded for configurations on the way. -/
theorem emits_of_changes {start : Configuration} {w w' : World}
    (h : ReflTransGen (E.Changes start) w w') : World.Emits (E.EncodesFrom start) w w' := by
  induction h with
  | refl => exact .refl w
  | tail _ hchange ih =>
      obtain ⟨c, hvisit, rfl, hacts⟩ := hchange
      refine ih.trans ((emits_of_acts hacts).mono ?_)
      rintro frame ⟨name, actuals, hsends, hframe⟩
      exact ⟨c, name, actuals, hvisit, hsends, hframe⟩

/-- A call that enters no function (`entry`) sends nothing. -/
theorem emits_of_entry {P : Frame → Prop} {depth : Int} {name : String} {w : World} {o : Outcome}
    (h : E.entry depth name w = .error o) : World.Emits P w o.world := by
  rcases entry_error_cases h with ⟨-, rfl⟩ | ⟨limit, -, hr⟩
  · exact .log w _ rfl
  · cases hr with
    | fault hlevel hlimit => exact .log w _ rfl
    | overlong hlong => exact .refl w

end Engine

/-! ### Commands -/

/-- A command comes to the configuration `c` of a call that it makes. -/
inductive Command.Visits (E : Engine) (w : World) : Command → Configuration → Prop
  | call {name : String} {args : Store} {depth : Int} {f : Function} {c : Configuration}
      (hentry : E.entry depth name w = .ok f)
      (hvisit : E.Visits (.entered depth name f args w) c) : Visits E w (.call name args depth) c
  | execute {f : Function} {args : Store} {depth : Int} {c : Configuration}
      (hvisit : E.Visits ⟨depth, .start f args, w.forgetReturn⟩ c) :
      Visits E w (.execute f args depth) c

/-- A command calls an instruction: it is the call `send`, or it comes to one. -/
inductive Command.Sends (E : Engine) (w : World) (command : Command) : String → Store → Prop
  | direct {name : String} {actuals : Store} (hcommand : command = .send name actuals) :
      Sends E w command name actuals
  | nested {c : Configuration} {name : String} {actuals : Store}
      (hvisit : command.Visits E w c) (hsends : Engine.Sends c name actuals) :
      Sends E w command name actuals

/-- A frame is encoded for a call of an instruction that a command `Sends`. -/
def Command.Encodes (E : Engine) (w : World) (command : Command) (frame : Frame) : Prop :=
  ∃ name actuals, command.Sends E w name actuals ∧ E.Encodes name actuals frame

namespace Session

variable {fuel : Nat} {E E' : Engine} {w u : World} {command : Command} {reply : Reply}

/-- What is sent on the way of a command, from its `start`, is encoded for it. -/
theorem encodes_of_encodesFrom {start : Configuration}
    (hstart : ∀ c, E.Visits start c → command.Visits E w c) {frame : Frame}
    (h : E.EncodesFrom start frame) : command.Encodes E w frame := by
  obtain ⟨c, name, actuals, hvisit, hsends, hframe⟩ := h
  exact ⟨name, actuals, .nested (hstart c hvisit) hsends, hframe⟩

open Relation (ReflTransGen)

theorem emits_of_entered {name : String} {args : Store} {depth : Int} {f : Function}
    (hentry : E.entry depth name w = .ok f)
    (h : ReflTransGen (E.Changes (.entered depth name f args w))
      (w.record (.enter name)).forgetReturn u) :
    World.Emits ((Command.call name args depth).Encodes E w) w u := by
  refine (World.Emits.enter w name).trans ((Engine.emits_of_changes h).mono fun frame => ?_)
  exact encodes_of_encodesFrom fun c => .call hentry

theorem emits_of_executed {f : Function} {args : Store} {depth : Int}
    (h : ReflTransGen (E.Changes ⟨depth, .start f args, w.forgetReturn⟩) w.forgetReturn u) :
    World.Emits ((Command.execute f args depth).Encodes E w) w u := by
  refine (World.Emits.forgetReturn w).trans ((Engine.emits_of_changes h).mono fun frame => ?_)
  exact encodes_of_encodesFrom fun c => .execute

/-- Wherever a command comes to, all that it has sent is encoded for it (`Command.Encodes`). -/
theorem emits_of_visits {c : Configuration} (h : command.Visits E w c) :
    World.Emits (command.Encodes E w) w c.world := by
  cases h with
  | call hentry hvisit => exact emits_of_entered hentry (Engine.changes_of_visits hvisit)
  | execute hvisit => exact emits_of_executed (Engine.changes_of_visits hvisit)

/-- So is all that it has sent when it is done. Only a host that gives the command `log` has
other info messages than those of frames. -/
theorem emits_of_act (hlog : ∀ severity text, command ≠ .log severity text)
    (h : act fuel E w command = some (reply, E', u)) :
    World.Emits (command.Encodes E w) w u := by
  cases command with
  | addInstruction i =>
      cases h
      exact .refl w
  | addFunction f =>
      cases hf : E.addFunction f with
      | ok E₁ =>
          simp only [act, hf, Option.some.injEq, Prod.mk.injEq] at h
          obtain ⟨-, -, rfl⟩ := h
          exact .refl w
      | error e =>
          simp only [act, hf, Option.some.injEq, Prod.mk.injEq] at h
          obtain ⟨-, -, rfl⟩ := h
          exact .record rfl rfl
  | appendStatement name s =>
      cases hf : E.findFunction? name <;>
        simp only [act, hf, Option.some.injEq, Prod.mk.injEq] at h <;>
        exact h.2.2 ▸ .refl w
  | call name args depth =>
      obtain ⟨o, ho, hsome⟩ := Option.map_eq_some_iff.1 h
      cases hsome
      rw [Engine.call_eq] at ho
      cases hentry : E.entry depth name w with
      | error o' =>
          rw [hentry] at ho
          cases ho
          exact Engine.emits_of_entry hentry
      | ok f =>
          rw [hentry] at ho
          exact emits_of_entered hentry (Engine.changes_of_run ho)
  | send name args =>
      have hemits : World.Emits ((Command.send name args).Encodes E w) w (E.send name args w).2 :=
        (E.emits_of_send name args w).mono fun frame hframe => ⟨name, args, .direct rfl, hframe⟩
      rcases hsend : E.send name args w with ⟨r, w'⟩
      rw [hsend] at hemits
      cases r <;> simp only [act, hsend, Option.some.injEq, Prod.mk.injEq] at h <;>
        exact h.2.2 ▸ hemits
  | execute f args depth =>
      obtain ⟨o, ho, hsome⟩ := Option.map_eq_some_iff.1 h
      cases hsome
      exact emits_of_executed (Engine.changes_of_run ho)
  | setGlobal name v =>
      cases h
      exact .of_quiet rfl rfl
  | eraseGlobal name =>
      cases h
      exact .of_quiet rfl rfl
  | log severity text => exact absurd rfl (hlog severity text)
  | clear =>
      cases h
      exact .refl w

/-- What a host logs by the command `log` is no frame. -/
theorem frames_of_log {severity : Severity} {text : String}
    (h : act fuel E w (.log severity text) = some (reply, E', u)) : u.frames = w.frames := by
  cases h
  exact World.frames_log ..

/-! ### Sessions -/

/-- The world in which a command is carried out: that of the context `name`, or of a new one. -/
def start (s : Session) (name : Option String) : World :=
  ((s.context? name).getD (.fresh s.engine.verbose)).world

theorem frames_start (s : Session) (name : Option String) : (s.start name).frames = [] := rfl

theorem infos_start (s : Session) (name : Option String) : (s.start name).infos = [] := rfl

/-- A command is carried out in the session `s` and leaves a world. -/
inductive Performs (fuel : Nat) (s : Session) (command : Command) :
    Option String → Response → Session → World → Prop
  /-- A context of the host takes up the world, and its frames are delivered. -/
  | within {name : String} {c : Context} {reply : Reply} {E : Engine} {u : World}
      (hc : s.context? (some name) = some c)
      (hact : act fuel s.engine (s.start (some name)) command = some (reply, E, u)) :
      Performs fuel s command (some name)
        ⟨reply, u.frames, u.shown c.verbose s.engine.verbose⟩
        ⟨E, Assoc.put name (settle c u command) s.contexts⟩ u
  /-- The context is a new one (`Context.fresh`), and nobody receives its frames. -/
  | alone {name : Option String} {reply : Reply} {E : Engine} {u : World}
      (hc : s.context? name = none) (hneeds : command.needsContext = false)
      (hact : act fuel s.engine (s.start name) command = some (reply, E, u)) :
      Performs fuel s command name
        ⟨reply, [], u.shown s.engine.verbose s.engine.verbose⟩ { s with engine := E } u
  /-- There is no context, though the command `needsContext`, and nothing is done. -/
  | refused {name : Option String} (hc : s.context? name = none)
      (hneeds : command.needsContext = true) :
      Performs fuel s command name ⟨.contextless, [], ""⟩ s (s.start name)

variable {s s₀ s' : Session} {name : Option String} {r : Response}

theorem start_of_context? {c : Context} (hc : s.context? name = some c) :
    s.start name = c.world := by
  simp [start, hc]

/-- What `perform` does in a context of the host: `settle` takes up the world. -/
theorem perform_within {key : String} {c : Context} (hc : s.context? (some key) = some c) :
    s.perform fuel (some key) command =
      (act fuel s.engine (s.start (some key)) command).map fun (reply, E, u) =>
        (⟨reply, u.frames, u.shown c.verbose s.engine.verbose⟩,
          ⟨E, Assoc.put key (settle c u command) s.contexts⟩) := by
  have hkey : s.contexts.lookup key = some c := hc
  rw [start_of_context? hc]
  simp only [perform, Option.bind_some, hkey, Option.map_some]

theorem bind_lookup_of_context?_eq_none (hc : s.context? name = none) :
    (name.bind fun name => (s.contexts.lookup name).map fun c => (name, c)) = none := by
  cases name with
  | none => rfl
  | some name => exact Option.map_eq_none_iff.2 hc

/-- What `perform` does without a context, for a command that needs none. -/
theorem perform_alone (hc : s.context? name = none) (hneeds : command.needsContext = false) :
    s.perform fuel name command =
      (act fuel s.engine (s.start name) command).map fun (reply, E, u) =>
        (⟨reply, [], u.shown s.engine.verbose s.engine.verbose⟩, { s with engine := E }) := by
  have hstart : s.start name = (Context.fresh s.engine.verbose).world := by
    simp [start, hc]
  rw [hstart]
  simp only [perform, bind_lookup_of_context?_eq_none hc, hneeds, Bool.false_eq_true, if_false]
  rfl

theorem perform_refused (hc : s.context? name = none) (hneeds : command.needsContext = true) :
    s.perform fuel name command = some (⟨.contextless, [], ""⟩, s) := by
  simp only [perform, bind_lookup_of_context?_eq_none hc, hneeds, if_true]

/-- All that a session does in `perform` is one of the three cases of `Performs`. -/
theorem performs_of_perform (h : s.perform fuel name command = some (r, s')) :
    ∃ u, s.Performs fuel command name r s' u := by
  cases hc : s.context? name with
  | none =>
      cases hneeds : command.needsContext with
      | true =>
          rw [perform_refused hc hneeds] at h
          cases h
          exact ⟨_, .refused hc hneeds⟩
      | false =>
          rw [perform_alone hc hneeds] at h
          obtain ⟨⟨reply, E, u⟩, hact, heq⟩ := Option.map_eq_some_iff.1 h
          cases heq
          exact ⟨u, .alone hc hneeds hact⟩
  | some c =>
      obtain ⟨key, rfl, -⟩ := Option.bind_eq_some_iff.1 hc
      rw [perform_within hc] at h
      obtain ⟨⟨reply, E, u⟩, hact, heq⟩ := Option.map_eq_some_iff.1 h
      cases heq
      exact ⟨u, .within hc hact⟩

/-- The session `s₀` comes to another one by commands of the host. -/
inductive Reaches (s₀ : Session) : Session → Prop
  | refl : Reaches s₀ s₀
  | step {s s' : Session} {fuel : Nat} {name : Option String} {command : Command} {r : Response}
      (h : Reaches s₀ s) (hperform : s.perform fuel name command = some (r, s')) : Reaches s₀ s'

/-- What a command may do to the engine, and the `Reply` that it is answered with then. -/
inductive Rebuilds (E : Engine) : Command → Reply → Engine → Prop
  | instruction (i : Instruction) : Rebuilds E (.addInstruction i) .done (E.addInstruction i)
  | function {f : Function} {E' : Engine} (hf : E.addFunction f = .ok E') :
      Rebuilds E (.addFunction f) .done E'
  | statement {name : String} {f : Function} (s : Statement) (hf : E.findFunction? name = some f) :
      Rebuilds E (.appendStatement name s) .done (E.appendStatement name s)
  | keep {command : Command} {reply : Reply}
      (hfunction : ∀ f, command = .addFunction f → reply ≠ .done)
      (hstatement : ∀ name s, command = .appendStatement name s → reply ≠ .done) :
      Rebuilds E command reply E

theorem rebuilds_of_act (h : act fuel E w command = some (reply, E', u)) :
    Rebuilds E command reply E' := by
  cases command with
  | addInstruction i =>
      cases h
      exact .instruction i
  | addFunction f =>
      cases hf : E.addFunction f with
      | ok E₁ =>
          simp only [act, hf, Option.some.injEq, Prod.mk.injEq] at h
          obtain ⟨rfl, rfl, -⟩ := h
          exact .function hf
      | error e =>
          simp only [act, hf, Option.some.injEq, Prod.mk.injEq] at h
          obtain ⟨rfl, rfl, -⟩ := h
          exact .keep nofun nofun
  | appendStatement name s =>
      cases hf : E.findFunction? name with
      | some f =>
          simp only [act, hf, Option.some.injEq, Prod.mk.injEq] at h
          obtain ⟨rfl, rfl, -⟩ := h
          exact .statement s hf
      | none =>
          simp only [act, hf, Option.some.injEq, Prod.mk.injEq] at h
          obtain ⟨rfl, rfl, -⟩ := h
          exact .keep nofun nofun
  | call name args depth =>
      obtain ⟨o, -, hsome⟩ := Option.map_eq_some_iff.1 h
      cases hsome
      exact .keep nofun nofun
  | send name args =>
      rcases hsend : E.send name args w with ⟨r, w'⟩
      cases r <;> simp only [act, hsend, Option.some.injEq, Prod.mk.injEq] at h <;>
        exact h.2.1 ▸ .keep nofun nofun
  | execute f args depth =>
      obtain ⟨o, -, hsome⟩ := Option.map_eq_some_iff.1 h
      cases hsome
      exact .keep nofun nofun
  | _ =>
      cases h
      exact .keep nofun nofun

theorem Performs.rebuilds (h : s.Performs fuel command name r s' u) :
    Rebuilds s.engine command r.reply s'.engine := by
  cases h with
  | within hc hact => exact rebuilds_of_act hact
  | alone hc hneeds hact => exact rebuilds_of_act hact
  | refused hc hneeds => exact .keep nofun nofun

/-- The `frameSize` is fixed with the engine. -/
theorem Rebuilds.frameSize_eq (h : Rebuilds E command reply E') : E'.frameSize = E.frameSize := by
  cases h with
  | instruction i => rfl
  | function hf =>
      obtain ⟨g, -, rfl⟩ := Engine.addFunction_eq_ok hf
      rfl
  | statement s hf => rw [Engine.appendStatement_of_find hf]
  | keep => rfl

theorem frameSize_of_reaches (h : s₀.Reaches s) : s.engine.frameSize = s₀.engine.frameSize := by
  induction h with
  | refl => rfl
  | step _ hperform ih =>
      obtain ⟨u, hu⟩ := performs_of_perform hperform
      exact hu.rebuilds.frameSize_eq.trans ih

/-- What a command has sent and announced when it has come to the world `u`. -/
structure Emitted (s : Session) (frameSize : Option Int) (name : Option String)
    (command : Command) (u : World) : Prop where
  /-- Every frame is what the definition that is registered under the name of a called
  instruction makes of its `actuals`. -/
  encoded : ∀ frame ∈ u.frames, ∃ called actuals i,
    command.Sends s.engine (s.start name) called actuals ∧
      s.engine.findInstruction? called = some i ∧ i.encode frameSize actuals = .ok frame ∧
      frame.canId = i.canId ∧ frame.name = i.name
  /-- Every frame has the size that `frameSize` requires. -/
  sized : ∀ frame ∈ u.frames, ∀ size, frameSize = some size → (frame.data.length : Int) = size
  /-- The info messages are those that announce the frames, unless the host
  itself logs one. -/
  announced : (∀ severity text, command ≠ .log severity text) →
    u.infos.map some = u.frames.map Frame.announcement?

/-- What `Emits` says of the new frames is said of all, since a command starts without any. -/
theorem emitted_of_emits
    (h : World.Emits (command.Encodes s.engine (s.start name)) (s.start name) u) :
    s.Emitted s.engine.frameSize name command u := by
  obtain ⟨sent, hframes, hinfos, hsent⟩ := h
  rw [frames_start, List.nil_append] at hframes
  rw [infos_start, List.map_nil, List.nil_append] at hinfos
  subst hframes
  refine ⟨?_, ?_, fun _ => hinfos⟩
  · intro frame hframe
    obtain ⟨called, actuals, hsends, i, hi, hencode⟩ := hsent frame hframe
    obtain ⟨-, hid, hname, -⟩ := Instruction.encode_eq_ok_iff.1 hencode
    exact ⟨called, actuals, i, hsends, hi, hencode, hid, hname⟩
  · intro frame hframe
    obtain ⟨called, actuals, hsends, i, hi, hencode⟩ := hsent frame hframe
    exact (Instruction.encode_eq_ok_iff.1 hencode).2.2.2

theorem emitted_of_act (h : act fuel s.engine (s.start name) command = some (reply, E, u)) :
    s.Emitted s.engine.frameSize name command u := by
  by_cases hlog : ∃ severity text, command = .log severity text
  · obtain ⟨severity, text, rfl⟩ := hlog
    have hnone : u.frames = [] := frames_of_log h
    exact ⟨by simp [hnone], by simp [hnone], fun hlog => absurd rfl (hlog severity text)⟩
  · have hlog : ∀ severity text, command ≠ .log severity text :=
      fun severity text heq => hlog ⟨severity, text, heq⟩
    exact emitted_of_emits (emits_of_act hlog h)

/-- In all sessions that the session `s₀` `Reaches`, whatever a command does: wherever it comes
to, and when it is done, the frames that were sent are encoded, from the definitions of that
time and in the size that the engine requires, and announced one by one (`Emitted`). A call of
an instruction that fails sends and announces nothing. -/
theorem emissions_safe (hreach : s₀.Reaches s) (name : Option String) (command : Command) :
    (∀ c, command.Visits s.engine (s.start name) c →
      s.Emitted s₀.engine.frameSize name command c.world) ∧
    (∀ fuel r s', s.perform fuel name command = some (r, s') →
      ∃ u, s.Performs fuel command name r s' u ∧
        (r.sent = u.frames ∨ s.context? name = none ∧ r.sent = []) ∧
        s.Emitted s₀.engine.frameSize name command u) ∧
    ∀ called actuals w f w', s.engine.send called actuals w = (.error f, w') →
      w'.frames = w.frames ∧ w'.infos = w.infos := by
  rw [← frameSize_of_reaches hreach]
  refine ⟨?_, ?_, ?_⟩
  · intro c hvisit
    exact emitted_of_emits (emits_of_visits hvisit)
  · intro fuel r s' h
    obtain ⟨u, hu⟩ := performs_of_perform h
    refine ⟨u, hu, ?_⟩
    cases hu with
    | within hc hact => exact ⟨.inl rfl, emitted_of_act hact⟩
    | alone hc hneeds hact => exact ⟨.inr ⟨hc, rfl⟩, emitted_of_act hact⟩
    | refused hc hneeds =>
        refine ⟨.inr ⟨hc, rfl⟩, ?_⟩
        have hnone := s.frames_start name
        exact ⟨by simp [hnone], by simp [hnone], fun _ => by simp [hnone, s.infos_start name]⟩
  · intro called actuals w f w' h
    exact Engine.quiet_of_send h

/-- A session with a function `twice` that sends the instruction `pulse` in a loop. -/
def pulsing : Session where
  engine :=
    { frameSize := some 2
      functions := [("twice", .make "twice" [] [.loop ⟨"int", "2"⟩ "",
        .callInstruction "pulse" (.ofList [("x", ⟨"int", "258"⟩)]) "", .endLoop ""] "")] }
  contexts := [("main", .fresh false)]

/-- An instruction with frames of two bytes, of one argument `x`. -/
def pulse : Instruction := ⟨"pulse", .number 7, [⟨"x", "u16", "", ""⟩], ""⟩

theorem emissions_safe_pulsing :
    ∃ s, pulsing.Reaches s ∧
      (s.perform 9 (some "main") (.call "twice" {} 0)).map (·.1.sent) =
        some [⟨.number 7, [1, 2], "pulse"⟩, ⟨.number 7, [1, 2], "pulse"⟩] ∧
      ∀ r s', s.perform 9 (some "main") (.call "twice" {} 0) = some (r, s') →
        ∃ u, s.Performs 9 (.call "twice" {} 0) (some "main") r s' u ∧
          (r.sent = u.frames ∨ s.context? (some "main") = none ∧ r.sent = []) ∧
          s.Emitted (some 2) (some "main") (.call "twice" {} 0) u := by
  have hadd : pulsing.perform 0 none (.addInstruction pulse) = some (⟨.done, [], ""⟩,
      { pulsing with engine := pulsing.engine.addInstruction pulse }) := by
    rfl
  have hreach := Reaches.step .refl hadd
  refine ⟨_, hreach, by decide +kernel, ?_⟩
  exact (emissions_safe hreach (some "main") (.call "twice" {} 0)).2.1 9

end Session

end BusScript
