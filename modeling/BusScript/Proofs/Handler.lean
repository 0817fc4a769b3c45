import BusScript.Proofs.Turn

/-!
# Handlers

In `BusScript.Execution.Memory` an assignment is a function from scopes to
scopes or to an error, so that one that fails can have changed nothing. Here
statements are executed as **sequences of effects** instead: a handler reads
and writes the state of its call in place, may raise at any point, and leaves
the state as it was when it raised.

Each handler has one lemma `exec_…` that says what it does in terms of the
functions of the machine. What matters in them is the state that is left where
something is raised.
-/

namespace BusScript

/-- What a `Handler` can raise. -/
inductive Raised where
  /-- A variable is not bound or computed, for the reason `e`. -/
  | binding (e : BindingError)
  /-- The call ends by the failure `f`. -/
  | failure (f : Failure Fault)

/-- An execution on the state of a call and the world. One that raises (`Raised`) keeps what it
has done so far; one without an answer has run out of fuel. -/
abbrev Handler := ExceptT Raised (StateT (Activation × World) Option)

namespace Handler

variable {α β : Type}

/-- Execute a handler on the call `a` in the world `w`. -/
def exec (h : Handler α) (a : Activation) (w : World) :
    Option (Except Raised α × Activation × World) :=
  StateT.run (ExceptT.run h) (a, w)

/-! ### Effects -/

/-- Raise a `BindingError`, which the machine catches around each statement. -/
def raise (e : BindingError) : Handler α := throw (.binding e)

/-- End the call by the failure `f`. -/
def fail (f : Failure Fault) : Handler α := throw (.failure f)

/-- The state of the call, as the handler finds it. -/
def activation : Handler Activation := do return (← get).1

/-- The scopes of the call, as `Activation.memory` has them. -/
def memory : Handler Memory := do
  let (a, w) ← get
  return a.memory w

/-- Bind a local variable in place, by `Store.set`. -/
def setLocal (name : String) (v : Tagged) : Handler Unit :=
  modify fun (a, w) => ({ a with locals := a.locals.set name v }, w)

/-- Bind a global variable in place, by `Store.set`. -/
def setGlobal (name : String) (v : Tagged) : Handler Unit :=
  modify fun (a, w) => (a, { w with globals := w.globals.set name v })

/-- Replace the counters of `loops`. -/
def setLoops (loops : List (Nat × Counter)) : Handler Unit :=
  modify fun (a, w) => ({ a with loops }, w)

/-- Log a text in the world (`World.log`). -/
def log (severity : Severity) (text : String) : Handler Unit :=
  modify fun (a, w) => (a, w.log severity text)

/-- Send a frame: record an `Event.send`. -/
def emit (frame : Frame) : Handler Unit :=
  modify fun (a, w) => (a, w.record (.send frame))

/-- The value of a result, or else what `f` makes of its failure is raised. -/
def ofResult (f : α → Raised) : Except α β → Handler β
  | .ok v => pure v
  | .error e => throw (f e)

/-! ### Values -/

/-- The value of an expression, if it has one; a cycle is raised. -/
def resolve (v : Tagged) : Handler (Option Tagged) := do
  match Scopes.eval (← memory).scopes v with
  | .error cycle => raise (.cyclic cycle)
  | .ok v? => return v?

/-- The value of an expression, which has to be defined. The counterpart of `Memory.eval`. -/
def value (v : Tagged) : Handler Tagged := do
  match ← resolve v with
  | none => raise (.undefined v.payload)
  | some v => return v

/-- The value of the argument `name` of a statement. The counterpart of `Memory.arg`. -/
def argument (s : Statement) (name : String) : Handler Tagged :=
  match s.args.get? name with
  | none => raise (.missing name)
  | some v => value v

/-- The arguments that a call statement passes, evaluated and bound one after the other. The
counterpart of `Memory.actuals`. -/
def actuals (s : Statement) : Handler Store :=
  s.args.bindings.foldlM (fun store b => do return store.set b.1 (← value b.2)) {}

/-! ### Assignments -/

/-- What the failure of an operator raises: a binding error, unless a result cannot be written.
-/
def operatorRaised : Failure OperatorError → Raised
  | .error e => .binding (.operator e)
  | .unwritable => .failure .unwritable

/-- Change a variable that holds `held` by an operator. Both operands are read before `put`
writes. -/
def update (op : Operator) (held v : Tagged) (put : Tagged → Handler Unit) : Handler Unit := do
  let current ← value held
  put (← ofResult operatorRaised (op.apply current v))

/-- Assign `v` by the operator with this `sign`. The counterpart of `Memory.assign`. -/
def assign (name sign : String) (v : Tagged) : Handler Unit :=
  match Memory.Assignment.ofSign? sign with
  | some .toGlobal => setGlobal name v
  | some .toLocal => setLocal name v
  | some (.update op) => do
    -- a local variable hides a global one
    let m ← memory
    match m.locals.get? name, m.globals.get? name with
    | some held, _ => update op held v (setLocal name)
    | none, some held => update op held v (setGlobal name)
    | none, none => raise (.undefined name)
  | none => raise (.assignment sign)

/-- The value on the right of an assignment, its first operand included. The counterpart of
`Memory.rightSide`. -/
def rightSide (s : Statement) : Handler Tagged := do
  let first ← argument s Statement.operandArg
  let hasOperator := s.args.contains Statement.operatorArg
  if hasOperator != s.args.contains Statement.secondArg then raise .unpairedOperand
  else if hasOperator then
    let sign ← argument s Statement.operatorArg
    let second ← argument s Statement.secondArg
    ofResult operatorRaised (Operator.applySign sign.payload first second)
  else return first

/-- Assign `target assign operand [operator second]`. The counterpart of `Memory.setVar`. -/
def setVar (s : Statement) : Handler Unit := do
  match s.args.get? Statement.targetArg with
  | none => raise (.missing Statement.targetArg)
  | some target =>
    if target.payload = "" then raise (.missing Statement.targetArg)
    else
      -- everything that can raise comes before the assignment
      let sign ← argument s Statement.assignArg
      let v ← rightSide s
      assign target.payload sign.payload v

/-- Bind a variable by a content `name=value`, with `put` for a local or a global one. -/
def setBinding (s : Statement) (put : String → Tagged → Handler Unit) : Handler Unit :=
  let (name, text) := Text.cut s.content "="
  if name = "" then raise (.malformed s.content) else put name (.parse text)

/-! ### Calls -/

/-- What a failure of the encoder raises: it ends the call with `Fault.encoding`. -/
def encodingRaised (f : Failure EncodeError) : Raised := .failure (f.map .encoding)

/-- The value of a formal argument. A cycle among the `actuals` is caught and raised again as an
encoding error. The counterpart of `Param.value`. -/
def paramValue (p : Param) (actuals : Store) : Handler Tagged :=
  match actuals.get? p.name with
  | some bound => do
    let v? ← tryCatch (ofResult (.binding ∘ .cyclic) (Scopes.resolve [actuals] p.name)) fun
      | .binding (.cyclic cycle) => throw (encodingRaised (.error (.cyclic p.name cycle)))
      | r => throw r
    match v? with
    | none => throw (encodingRaised (.error (.dangling p.name bound)))
    | some v => return v
  | none =>
    if p.default = "" then throw (encodingRaised (.error (.missing p.name)))
    else return .parse p.default

/-- The bytes of the arguments of an instruction, behind the bytes `data`. -/
def encodeParams (instruction : String) (actuals : Store) (ps : List Param) (data : Bytes) :
    Handler Bytes :=
  ps.foldlM (fun data p => do
    let v ← paramValue p actuals
    let bs ← ofResult (fun f => encodingRaised (f.map (.field instruction p.name)))
      (packField p.type v)
    return data ++ bs) data

/-- The frame of an instruction with the arguments `actuals`. The counterpart of
`Instruction.encode`. -/
def encode (i : Instruction) (frameSize : Option Int) (actuals : Store) : Handler Frame := do
  let data ← encodeParams i.name actuals i.params []
  -- the size is checked last
  match frameSize with
  | none => return ⟨i.canId, data, i.name⟩
  | some size =>
    if (data.length : Int) = size then return ⟨i.canId, data, i.name⟩
    else throw (encodingRaised (.showing [size] (.size i.name data.length size)))

/-- Encode the instruction `name` and send its frame. An encoding error is logged on its way
out. The counterpart of `Engine.send`. -/
def send (E : Engine) (name : String) (actuals : Store) : Handler Unit :=
  match E.findInstruction? name with
  | none => do
    let fault := Fault.unknown .instruction name
    log .error fault.message
    fail (.error fault)
  | some i => do
    let frame ← tryCatch (encode i E.frameSize actuals) fun
      | .failure (.error (.encoding e)) => do
        log .fatal e.message
        fail (.error (.encoding e))
      | r => throw r
    match frame.render? with
    | none => fail .unwritable
    | some text =>
      log .info ("instruction data: " ++ text)
      emit frame

/-- Call the function `name` by `call`, and take over the world that it leaves. -/
def invoke (call : String → Store → World → Option (Except Raised (Option Tagged) × World))
    (name : String) (args : Store) : Handler Unit := do
  let (a, w) ← get
  let (r, w) ← liftM (call name args w)
  set (a, w)
  let _ ← ofResult id r

/-- Go on where a definition was missing, unless the engine wants to stop: the failures that
`Engine.tolerates` are caught. -/
def tolerating (E : Engine) (h : Handler Unit) : Handler Unit :=
  tryCatch h fun
    | .failure f => if E.tolerates f then return () else fail f
    | .binding e => raise e

/-! ### Loops and returning -/

/-- The loop index of the function. Without one, a fault is logged and ends the call. -/
def loopIndex : Handler LoopIndex := do
  match (← activation).function.loopIndex with
  | .ok index => return index
  | .error e =>
    log .fatal e.message
    fail (.error (.structural e))

/-- Start another pass of a loop, or end it. The answer is where to go on, if not behind the
statement. -/
def pass (index : LoopIndex) (c : Counter) : Handler (Option Nat) := do
  let a ← activation
  let others := a.loops.filter (·.1 ≠ a.pos)
  if c.started < c.count then
    setLoops ((a.pos, { c with started := c.started + 1 }) :: others)
    return none
  else
    setLoops others
    return some (index.partner a.pos + 1)

/-- The number of passes of a loop. A `BindingError` is caught and becomes part of the answer.
-/
def readCount (s : Statement) : Handler (Except Activation.CountError Int) :=
  tryCatch
    (do
      let v ← argument s Statement.countArg
      return (Numeral.parse v.payload).mapError .numeral)
    fun
      | .binding e => return .error (.binding e)
      | .failure f => fail f

/-- Start a loop whose count was read by `readCount`, or leave it out with an error message. -/
def start (index : LoopIndex) :
    Except Activation.CountError Int → Handler (Option Nat)
  | .error e => do
    let a ← activation
    log .error (a.describe .loop
      ("invalid " ++ Statement.countArg ++ ", loop skipped: " ++ e.message))
    return some (index.partner a.pos + 1)
  | .ok n => do
    let a ← activation
    if Numeral.writable n then
      setLoops ((a.pos, ⟨0, n⟩) :: a.loops)
      pass index ⟨0, n⟩
    else fail .unwritable

/-- Enter a loop, or go on with it if it has a counter. The counterpart of `Activation.loop`. -/
def loop (s : Statement) : Handler (Option Nat) := do
  let index ← loopIndex
  let a ← activation
  match a.loops.lookup a.pos with
  | some c => pass index c
  | none => start index (← readCount s)

/-- Go back to the statement that opens the loop, as the `LoopIndex` has it. -/
def endLoop : Handler (Option Nat) := do
  let index ← loopIndex
  return some (index.partner (← activation).pos)

/-- Keep the value `v` that the call returns, in its `result` and in the world. -/
def keepReturn (v : Tagged) : Handler Unit :=
  modify fun (a, w) => ({ a with result := some v }, w.keepReturn v)

/-- The value of an expression to return. One that does not resolve is caught and becomes part
of the answer. -/
def readReturn (s : Statement) : Handler (Except BindingError (Option Tagged)) :=
  tryCatch (do return .ok (← resolve (.parse s.content))) fun
    | .binding e => return .error e
    | .failure f => fail f

/-- Return the value of an expression; the call is over whatever becomes of it. The counterpart
of `Activation.ret`. -/
def ret (s : Statement) : Handler (Option Nat) := do
  let a ← activation
  match ← readReturn s with
  | .error e => log .error (a.describe .ret e.message)
  | .ok none => log .error (a.describe .ret ("undefined value " ++ Text.quote s.content))
  | .ok (some v) => if v.isEmpty then pure () else keepReturn v
  return some a.function.size

/-- Execute a statement by the handler of its form, and tell where to go on if not behind it. -/
def ofStatement (E : Engine)
    (call : String → Store → World → Option (Except Raised (Option Tagged) × World))
    (s : Statement) : Handler (Option Nat) :=
  match s.form with
  | .callInstruction => do
    let actuals ← actuals s
    tolerating E (send E s.content actuals)
    return none
  | .callFunction => do
    let actuals ← actuals s
    tolerating E (invoke call s.content actuals)
    return none
  | .loop => loop s
  | .endLoop => endLoop
  | .ret => ret s
  | .setVar => do
    setVar s
    return none
  | .setLocal => do
    setBinding s setLocal
    return none
  | .setGlobal => do
    setBinding s setGlobal
    return none

/-! ### What the effects do -/

variable {a : Activation} {w : World}

@[simp] theorem exec_pure (v : α) : exec (pure v) a w = some (.ok v, a, w) := rfl

@[simp] theorem exec_get : exec get a w = some (.ok (a, w), a, w) := rfl

@[simp] theorem exec_activation : exec activation a w = some (.ok a, a, w) := rfl

@[simp] theorem exec_memory : exec memory a w = some (.ok (a.memory w), a, w) := rfl

@[simp] theorem exec_setLoops (loops : List (Nat × Counter)) :
    exec (setLoops loops) a w = some (.ok (), { a with loops }, w) := rfl

@[simp] theorem exec_ofResult (f : α → Raised) (r : Except α β) :
    exec (ofResult f r) a w = some (r.mapError f, a, w) := by
  cases r <;> rfl

@[simp] theorem exec_liftM (x : Option α) :
    exec (liftM x : Handler α) a w = x.map fun v => (.ok v, a, w) := by
  cases x <;> rfl

/-- Executing `h >>= k` is executing `h` and, unless it raises, `k` in the state that `h` has
left. -/
theorem exec_bind (h : Handler α) (k : α → Handler β) :
    exec (h >>= k) a w = (exec h a w).bind fun
      | (.ok v, a, w) => exec (k v) a w
      | (.error e, a, w) => some (.error e, a, w) := by
  refine congrArg (Option.bind (exec h a w)) (funext fun p => ?_)
  obtain ⟨r, a, w⟩ := p
  cases r <;> rfl

/-- What is raised by `h` is handled by `k` in the state that `h` has left: nothing is rolled
back. -/
theorem exec_tryCatch (h : Handler α) (k : Raised → Handler α) :
    exec (tryCatch h k) a w = (exec h a w).bind fun
      | (.ok v, a, w) => some (.ok v, a, w)
      | (.error e, a, w) => exec (k e) a w := by
  rw [exec, ExceptT.run_tryCatch, StateT.run_bind]
  refine congrArg (Option.bind (exec h a w)) (funext fun p => ?_)
  obtain ⟨r, a, w⟩ := p
  cases r <;> rfl

/-- Go on with `k` in an unchanged state, after a handler that only reads and gave this result.
-/
def andThen (k : α → Handler β) (a : Activation) (w : World) :
    Except Raised α → Option (Except Raised β × Activation × World)
  | .ok v => exec (k v) a w
  | .error e => some (.error e, a, w)

@[simp] theorem andThen_ok (k : α → Handler β) (v : α) :
    andThen k a w (.ok v) = exec (k v) a w := rfl

/-- A handler that leaves the state as it is can be replaced by its result `r`. -/
theorem exec_bind_of_reads {h : Handler α} {r : Except Raised α}
    (hr : exec h a w = some (r, a, w)) (k : α → Handler β) :
    exec (h >>= k) a w = andThen k a w r := by
  rw [exec_bind, hr]
  cases r <;> rfl

/-! ### What the handlers do -/

/-- Resolving changes nothing, and raises exactly the cycles that `Scopes.eval` finds. -/
theorem exec_resolve (v : Tagged) :
    exec (resolve v) a w =
      some ((Scopes.eval (a.memory w).scopes v).mapError (.binding ∘ .cyclic), a, w) := by
  rw [resolve, exec_bind_of_reads exec_memory, andThen_ok]
  cases Scopes.eval (a.memory w).scopes v <;> rfl

/-- The handler `value` reads what `Memory.eval` gives, and changes nothing. -/
theorem exec_value (v : Tagged) :
    exec (value v) a w = some (((a.memory w).eval v).mapError .binding, a, w) := by
  rw [value, exec_bind_of_reads (exec_resolve v), Memory.eval]
  cases Scopes.eval (a.memory w).scopes v with
  | error cycle => rfl
  | ok v? => cases v? <;> rfl

theorem exec_argument (s : Statement) (name : String) :
    exec (argument s name) a w = some (((a.memory w).arg s name).mapError .binding, a, w) := by
  rw [argument, Memory.arg]
  cases s.args.get? name with
  | none => rfl
  | some v => exact exec_value v

/-- Evaluating bindings one by one into a store is `Memory.evalAll`, and changes nothing. -/
theorem exec_foldlM_value (bs : List (String × Tagged)) (store : Store) :
    exec (bs.foldlM (fun store b => do return store.set b.1 (← value b.2)) store) a w =
      some ((((a.memory w).evalAll bs).map fun vs =>
        vs.foldl (fun store b => store.set b.1 b.2) store).mapError .binding, a, w) := by
  induction bs generalizing store with
  | nil => rfl
  | cons b bs ih =>
      obtain ⟨name, v⟩ := b
      have hset : exec (do return store.set name (← value v) : Handler Store) a w =
          some ((((a.memory w).eval v).map (store.set name)).mapError .binding, a, w) := by
        rw [exec_bind_of_reads (exec_value v)]
        cases (a.memory w).eval v <;> rfl
      -- the first argument that raises decides, and the store built so far is lost
      rw [List.foldlM_cons, exec_bind_of_reads hset, Memory.evalAll]
      cases (a.memory w).eval v with
      | error e => rfl
      | ok v =>
          simp only [Except.map, mapError_ok, andThen_ok, ih]
          cases (a.memory w).evalAll bs <;> rfl

/-- The handler `actuals` reads what `Memory.actuals` gives, and changes nothing. -/
theorem exec_actuals (s : Statement) :
    exec (actuals s) a w = some (((a.memory w).actuals s).mapError .binding, a, w) :=
  exec_foldlM_value s.args.bindings {}

/-- What the failure of an assignment raises. -/
def bindingRaised : Failure BindingError → Raised
  | .error e => .binding e
  | .unwritable => .failure .unwritable

/-- The end of a handler that assigns: it raises with nothing changed, or leaves the scopes that
the assignment has in `Memory`. -/
def assigned (a : Activation) (w : World) :
    Except (Failure BindingError) Memory → Except Raised Unit × Activation × World
  | .error f => (.error (bindingRaised f), a, w)
  | .ok m => (.ok (), { a with locals := m.locals }, { w with globals := m.globals })

/-- A compound assignment that writes by `put` ends as `Memory.combine` says, if `put` writes
what `set` does to the scopes. -/
theorem exec_update (op : Operator) (held v : Tagged) (put : Tagged → Handler Unit)
    (set : Tagged → Memory)
    (hput : ∀ v, exec (put v) a w = some (assigned a w (.ok (set v)))) :
    exec (update op held v put) a w =
      some (assigned a w (((a.memory w).combine op held v).map set)) := by
  rw [update, exec_bind_of_reads (exec_value held), Memory.combine]
  cases (a.memory w).eval held with
  | error e => rfl
  | ok current =>
      rw [mapError_ok, andThen_ok,
        exec_bind_of_reads (exec_ofResult operatorRaised (op.apply current v))]
      dsimp only
      cases op.apply current v with
      | ok v => exact hput v
      | error f => cases f <;> rfl

/-- The handler `assign`, which writes in place, ends as the function `Memory.assign` says. -/
theorem exec_assign (name sign : String) (v : Tagged) :
    exec (assign name sign v) a w = some (assigned a w ((a.memory w).assign name sign v)) := by
  unfold assign Memory.assign
  cases Memory.Assignment.ofSign? sign with
  | none => rfl
  | some assignment =>
      cases assignment with
      | toGlobal => rfl
      | toLocal => rfl
      | update op =>
          dsimp only
          -- the scope is chosen before the value is computed, and written after
          rw [exec_bind_of_reads exec_memory, andThen_ok, Memory.compound]
          cases (a.memory w).locals.get? name with
          | some held =>
              exact exec_update op held v (setLocal name) ((a.memory w).setLocal name) fun _ => rfl
          | none =>
              cases (a.memory w).globals.get? name with
              | some held =>
                  exact exec_update op held v (setGlobal name) ((a.memory w).setGlobal name)
                    fun _ => rfl
              | none => rfl

theorem exec_rightSide (s : Statement) :
    exec (rightSide s) a w = some ((match (a.memory w).arg s Statement.operandArg with
      | .error e => .error (.binding e)
      | .ok first => ((a.memory w).rightSide s first).mapError bindingRaised), a, w) := by
  rw [rightSide, exec_bind_of_reads (exec_argument s Statement.operandArg)]
  cases (a.memory w).arg s Statement.operandArg with
  | error e => rfl
  | ok first =>
      simp only [mapError_ok, andThen_ok, Memory.rightSide]
      -- an operator without a second operand, and the other way round, raise
      cases s.args.contains Statement.operatorArg <;>
        cases s.args.contains Statement.secondArg <;> try rfl
      simp only [bne_self_eq_false, Bool.false_eq_true, if_false, if_true]
      rw [exec_bind_of_reads (exec_argument s Statement.operatorArg)]
      cases (a.memory w).arg s Statement.operatorArg with
      | error e => rfl
      | ok sign =>
          rw [mapError_ok, andThen_ok, exec_bind_of_reads (exec_argument s Statement.secondArg)]
          cases (a.memory w).arg s Statement.secondArg with
          | error e => rfl
          | ok second =>
              simp only [mapError_ok, andThen_ok, exec_ofResult]
              cases Operator.applySign sign.payload first second with
              | ok v => rfl
              | error f => cases f <;> rfl

/-- An assignment statement that raises has changed nothing, and one that does not has the
effect of `Memory.setVar`. -/
theorem exec_setVar (s : Statement) :
    exec (setVar s) a w = some (assigned a w ((a.memory w).setVar s)) := by
  unfold setVar Memory.setVar Memory.target
  cases s.args.get? Statement.targetArg with
  | none => rfl
  | some target =>
      dsimp only
      by_cases ht : target.payload = ""
      · simp only [if_pos ht]
        rfl
      · simp only [if_neg ht]
        rw [exec_bind_of_reads (exec_argument s Statement.assignArg)]
        cases (a.memory w).arg s Statement.assignArg with
        | error e => rfl
        | ok sign =>
            rw [mapError_ok, andThen_ok, exec_bind_of_reads (exec_rightSide s)]
            cases (a.memory w).arg s Statement.operandArg with
            | error e => rfl
            | ok first =>
                dsimp only
                cases (a.memory w).rightSide s first with
                | error f => rfl
                | ok v => exact exec_assign target.payload sign.payload v

/-- Binding a variable by its content ends as `Memory.parseBinding` and `set` say, if `put`
writes what `set` does. -/
theorem exec_setBinding (s : Statement) (put : String → Tagged → Handler Unit)
    (set : String → Tagged → Memory)
    (hput : ∀ name v, exec (put name v) a w = some (assigned a w (.ok (set name v)))) :
    exec (setBinding s put) a w =
      some (assigned a w (((Memory.parseBinding s.content).mapError .error).map
        fun b => set b.1 b.2)) := by
  unfold setBinding Memory.parseBinding
  obtain ⟨name, text⟩ := Text.cut s.content "="
  dsimp only
  by_cases hn : name = ""
  · rw [if_pos hn, if_pos hn]
    rfl
  · rw [if_neg hn, if_neg hn]
    exact hput name (.parse text)

theorem exec_setLocalStatement (s : Statement) :
    exec (setBinding s setLocal) a w =
      some (assigned a w ((a.memory w).setLocalStatement s)) := by
  rw [exec_setBinding s setLocal (a.memory w).setLocal fun _ _ => rfl, Memory.setLocalStatement]
  cases Memory.parseBinding s.content <;> rfl

theorem exec_setGlobalStatement (s : Statement) :
    exec (setBinding s setGlobal) a w =
      some (assigned a w ((a.memory w).setGlobalStatement s)) := by
  rw [exec_setBinding s setGlobal (a.memory w).setGlobal fun _ _ => rfl, Memory.setGlobalStatement]
  cases Memory.parseBinding s.content <;> rfl

/-- The cycle that is caught and raised again is the error of `Param.value`. -/
theorem exec_paramValue (p : Param) (actuals : Store) :
    exec (paramValue p actuals) a w =
      some ((p.value actuals).mapError fun e => encodingRaised (.error e), a, w) := by
  unfold paramValue Param.value
  cases actuals.get? p.name with
  | none =>
      dsimp only
      by_cases hd : p.default = ""
      · rw [if_pos hd, if_pos hd]
        rfl
      · rw [if_neg hd, if_neg hd]
        rfl
  | some bound =>
      rw [exec_bind, exec_tryCatch, exec_ofResult]
      cases Scopes.resolve [actuals] p.name with
      | error cycle => rfl
      | ok v? => cases v? <;> rfl

theorem exec_encodeParam (instruction : String) (actuals : Store) (p : Param) (data : Bytes) :
    exec (do
      let v ← paramValue p actuals
      let bs ← ofResult (fun f => encodingRaised (f.map (.field instruction p.name)))
        (packField p.type v)
      return data ++ bs : Handler Bytes) a w =
      some (((p.encode instruction actuals).map (data ++ ·)).mapError encodingRaised, a, w) := by
  rw [exec_bind_of_reads (exec_paramValue p actuals), Param.encode]
  cases p.value actuals with
  | error e => rfl
  | ok v =>
      rw [mapError_ok, andThen_ok, exec_bind, exec_ofResult]
      dsimp only
      cases packField p.type v <;> rfl

/-- Arguments that are packed behind `data` one after the other are those of
`BusScript.encodeParams`, and nothing changes. -/
theorem exec_encodeParams (instruction : String) (actuals : Store) (ps : List Param)
    (data : Bytes) :
    exec (encodeParams instruction actuals ps data) a w =
      some (((BusScript.encodeParams instruction actuals ps).map (data ++ ·)).mapError
        encodingRaised, a, w) := by
  induction ps generalizing data with
  | nil => simp [encodeParams, BusScript.encodeParams, Except.map, mapError_ok]
  | cons p ps ih =>
      rw [encodeParams, List.foldlM_cons,
        exec_bind_of_reads (exec_encodeParam instruction actuals p data), BusScript.encodeParams]
      cases p.encode instruction actuals with
      | error f => rfl
      | ok bs =>
          have hrest := ih (data ++ bs)
          rw [encodeParams] at hrest
          simp only [Except.map, mapError_ok, andThen_ok, hrest]
          cases BusScript.encodeParams instruction actuals ps with
          | error f => rfl
          | ok rest => simp only [List.append_assoc]

/-- The handler `encode` gives what `Instruction.encode` gives, and changes nothing. -/
theorem exec_encode (i : Instruction) (frameSize : Option Int) (actuals : Store) :
    exec (encode i frameSize actuals) a w =
      some ((i.encode frameSize actuals).mapError encodingRaised, a, w) := by
  rw [encode, exec_bind_of_reads (exec_encodeParams i.name actuals i.params []),
    Instruction.encode]
  cases BusScript.encodeParams i.name actuals i.params with
  | error f => rfl
  | ok data =>
      simp only [Except.map, mapError_ok, andThen_ok, List.nil_append]
      cases frameSize with
      | none => rfl
      | some size =>
          dsimp only
          by_cases hd : (data.length : Int) = size
          · rw [if_pos hd, if_pos hd]
            rfl
          · rw [if_neg hd, if_neg hd]
            rfl

/-- Sending ends and changes the world as `Engine.send` says; the state of the call stays. -/
theorem exec_send (E : Engine) (name : String) (actuals : Store) :
    exec (send E name actuals) a w =
      some (((E.send name actuals w).1.map fun _ => ()).mapError .failure, a,
        (E.send name actuals w).2) := by
  unfold send Engine.send
  cases E.findInstruction? name with
  | none => rfl
  | some i =>
      dsimp only
      rw [exec_bind, exec_tryCatch, exec_encode]
      cases i.encode E.frameSize actuals with
      | error f => cases f <;> rfl
      | ok frame =>
          simp only [mapError_ok, Option.bind_some]
          cases frame.render? <;> rfl

/-- What a call statement raises after a call with this result: what the engine `tolerates` is
no longer raised. -/
def tolerated (E : Engine) : Except (Failure Fault) α → Except Raised Unit
  | .ok _ => .ok ()
  | .error f => if E.tolerates f then .ok () else .error (.failure f)

/-- Around a handler that ends with a call's result, `tolerating` leaves the state and decides
what is `tolerated`. -/
theorem exec_tolerating (E : Engine) {h : Handler Unit} {r : Except (Failure Fault) α}
    {w' : World} (hr : exec h a w = some ((r.map fun _ => ()).mapError .failure, a, w')) :
    exec (tolerating E h) a w = some (tolerated E r, a, w') := by
  rw [tolerating, exec_tryCatch, hr]
  cases r with
  | ok v => rfl
  | error f =>
      simp only [Except.map, mapError_error, Option.bind_some, tolerated]
      cases E.tolerates f <;> rfl

/-- A call that answers is taken over with its world; what it raises is raised again. -/
theorem exec_invoke {call : String → Store → World → Option (Except Raised (Option Tagged) × World)}
    {name : String} {actuals : Store} {o : Outcome}
    (hc : call name actuals w = some (o.result.mapError .failure, o.world)) :
    exec (invoke call name actuals) a w =
      some ((o.result.map fun _ => ()).mapError .failure, a, o.world) := by
  rw [invoke, exec_bind, exec_get, Option.bind_some]
  dsimp only
  rw [exec_bind, exec_liftM, hc]
  simp only [Option.map_some, Option.bind_some]
  cases o.result <;> rfl

theorem exec_invoke_none
    {call : String → Store → World → Option (Except Raised (Option Tagged) × World)}
    {name : String} {actuals : Store} (hc : call name actuals w = none) :
    exec (invoke call name actuals) a w = none := by
  rw [invoke, exec_bind, exec_get, Option.bind_some]
  dsimp only
  rw [exec_bind, exec_liftM, hc]
  rfl

/-- Without an index, a fault is logged and raised; with one, nothing changes. -/
theorem exec_loopIndex :
    exec loopIndex a w = some (match a.function.loopIndex with
      | .ok index => (.ok index, a, w)
      | .error e => (.error (.failure (.error (.structural e))), a, w.log .fatal e.message)) := by
  rw [loopIndex, exec_bind_of_reads exec_activation, andThen_ok]
  cases a.function.loopIndex <;> rfl

/-- The count is what `Activation.loopCount` says, errors included, so that nothing is raised.
-/
theorem exec_readCount (s : Statement) :
    exec (readCount s) a w = some (.ok (Activation.loopCount (a.memory w) s), a, w) := by
  rw [readCount, exec_tryCatch, exec_bind_of_reads (exec_argument s Statement.countArg),
    Activation.loopCount]
  cases (a.memory w).arg s Statement.countArg <;> rfl

end Handler

end BusScript
