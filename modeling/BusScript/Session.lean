import BusScript.Context
import BusScript.Execution.Machine

/-!
# Sessions

A host works with one engine and any number of named contexts. A `Command` is
one thing that it may ask for; `Session.perform` answers it and gives the
session after it. Calls, sends and changes of the engine do without a context:
they are carried out in a new one, which is forgotten and whose frames nobody
receives. Every other command is about a context of the host
(`Command.needsContext`) and does nothing without it.
-/

namespace BusScript

/-- One engine, and the named contexts of a host. -/
structure Session where
  engine : Engine
  contexts : List (String × Context)

/-- What a host may ask for; `Session.perform` carries it out. -/
inductive Command where
  /-- Register an instruction. -/
  | addInstruction (i : Instruction)
  /-- Register a function. -/
  | addFunction (f : Function)
  /-- Add a statement to the registered `function`. -/
  | appendStatement (function : String) (s : Statement)
  /-- Call the registered `function`. -/
  | call (function : String) (args : Store) (depth : Int)
  /-- Send the registered `instruction`. -/
  | send (instruction : String) (args : Store)
  /-- Execute a function `f` that need not be registered. -/
  | execute (f : Function) (args : Store) (depth : Int)
  /-- Bind a global variable. -/
  | setGlobal (name : String) (v : Tagged)
  /-- Remove a global variable. -/
  | eraseGlobal (name : String)
  /-- Log a text. -/
  | log (severity : Severity) (text : String)
  /-- Forget frames and messages (`Context.clear`). -/
  | clear

/-- Whether a command is about a context of the host, so that without one it is answered with
`Reply.contextless`. -/
def Command.needsContext : Command → Bool
  | .execute _ _ _ | .setGlobal _ _ | .eraseGlobal _ | .log _ _ | .clear => true
  | .addInstruction _ | .addFunction _ | .appendStatement _ _ | .call _ _ _ | .send _ _ => false

/-- The answer to a `Command`. -/
inductive Reply where
  /-- It is done. -/
  | done
  /-- A call ended with the value `v`, or without one. -/
  | value (v : Option Tagged)
  /-- The frame `f` was sent. -/
  | frame (f : Frame)
  /-- It ended by a fault. -/
  | failed (f : Failure Fault)
  /-- The function that it is about is not registered. -/
  | unregistered
  /-- It is about a context, and there is none. -/
  | contextless

/-- The answer of a call that ended with the outcome `o`. -/
def Reply.ofOutcome (o : Outcome) : Reply :=
  match o.result with
  | .ok v => .value v
  | .error f => .failed f

/-- The `reply` to a command, with the frames that were delivered to the host (`sent`) and the
text that was `shown`. -/
structure Response where
  reply : Reply
  sent : List Frame
  shown : String

namespace Session

/-- What a command does to the engine and in the world of a context. There is no answer if the
fuel does not suffice. -/
def act (fuel : Nat) (E : Engine) (w : World) : Command → Option (Reply × Engine × World)
  | .addInstruction i => some (.done, E.addInstruction i, w)
  | .addFunction f =>
    match E.addFunction f with
    | .ok E => some (.done, E, w)
    | .error e => some (.failed (.error (.structural e)), E, w.record (.alarm e.message))
  | .appendStatement name s =>
    match E.findFunction? name with
    | some _ => some (.done, E.appendStatement name s, w)
    | none => some (.unregistered, E, w)
  | .call name args depth =>
    (E.call fuel depth name args w).map fun o => (Reply.ofOutcome o, E, o.world)
  | .send name args =>
    match E.send name args w with
    | (.ok frame, w) => some (.frame frame, E, w)
    | (.error f, w) => some (.failed f, E, w)
  | .execute f args depth =>
    (E.execute fuel depth f args w).map fun o => (Reply.ofOutcome o, E, o.world)
  | .setGlobal name v => some (.done, E, { w with globals := w.globals.set name v })
  | .eraseGlobal name => some (.done, E, { w with globals := w.globals.erase name })
  | .log severity text => some (.done, E, w.log severity text)
  | .clear => some (.done, E, w)

/-- The context after a command that left the world `w`: what `Context.absorb` makes of it,
cleared if that was the command. -/
def settle (c : Context) (w : World) : Command → Context
  | .clear => (c.absorb w).clear
  | _ => c.absorb w

/-- The context of a session under `name`, if a name is given and the context exists. -/
def context? (s : Session) (name : Option String) : Option Context :=
  name.bind fun name => s.contexts.lookup name

/-- Putting a context under `key` changes no other context. -/
theorem context?_put (E : Engine) (key : String) (c : Context) (contexts : List (String × Context))
    (name : String) :
    (⟨E, Assoc.put key c contexts⟩ : Session).context? (some name) =
      if name = key then some c else contexts.lookup name :=
  Assoc.lookup_put key name c contexts

/-- Carry out a command in the context `name`, or in a `Context.fresh` one if it needs none of
the host's. There is no answer if the fuel does not suffice. -/
def perform (fuel : Nat) (s : Session) (name : Option String) (command : Command) :
    Option (Response × Session) :=
  match name.bind fun name => (s.contexts.lookup name).map fun c => (name, c) with
  | some (name, c) =>
    (act fuel s.engine c.world command).map fun (reply, E, w) =>
      (⟨reply, w.frames, w.shown c.verbose s.engine.verbose⟩,
        ⟨E, Assoc.put name (settle c w command) s.contexts⟩)
  | none =>
    if command.needsContext then some (⟨.contextless, [], ""⟩, s) else
    let c := Context.fresh s.engine.verbose
    (act fuel s.engine c.world command).map fun (reply, E, w) =>
      (⟨reply, [], w.shown c.verbose s.engine.verbose⟩, { s with engine := E })

end Session

end BusScript
