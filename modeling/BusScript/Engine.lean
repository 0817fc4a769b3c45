import BusScript.Program
import BusScript.Wire

/-!
# The engine

An engine holds the instructions and functions that calls refer to by name,
and the settings of calls. A name is registered again by replacing its
definition. A function is registered only if its loops are paired up.
-/

namespace BusScript

/-- The registered definitions, and the settings that all calls share. -/
structure Engine where
  /-- Show the functions that are entered (`Event.enter`). -/
  verbose : Bool := false
  /-- The number of bytes that every `Frame` must have; any number without it. -/
  frameSize : Option Int := some defaultFrameSize
  /-- Whether a missing definition (`Fault.unknown`) ends the calling function, too. -/
  stopOnError : Bool := false
  /-- The greatest depth of nested calls; no bound without it. -/
  maxCallDepth : Option Int := none
  instructions : List (String × Instruction) := []
  functions : List (String × Function) := []

namespace Engine

/-- The instruction that is registered under `name`. -/
def findInstruction? (E : Engine) (name : String) : Option Instruction :=
  E.instructions.lookup name

/-- The function that is registered under `name`. -/
def findFunction? (E : Engine) (name : String) : Option Function :=
  E.functions.lookup name

/-- Register an instruction under its name. A later one replaces an earlier one. -/
def addInstruction (E : Engine) (i : Instruction) : Engine :=
  { E with instructions := Assoc.put i.name i E.instructions }

/-- Register a function whose loops are paired up, as `Function.validate` finds; else nothing is
registered. -/
def addFunction (E : Engine) (f : Function) : Except LoopFault Engine :=
  match f.validate with
  | .error e => .error e
  | .ok f => .ok { E with functions := Assoc.put f.name f E.functions }

/-- Add a statement to the function that is registered under `name`. The loops are not checked,
so that the function may be unbalanced from then on. -/
def appendStatement (E : Engine) (name : String) (s : Statement) : Engine :=
  match E.findFunction? name with
  | none => E
  | some f => { E with functions := Assoc.put name (f.append s) E.functions }

variable {E E' : Engine} {name : String} {f : Function}

theorem findFunction?_put (E : Engine) (name : String) (f : Function) (x : String) :
    ({ E with functions := Assoc.put name f E.functions } : Engine).findFunction? x =
      if x = name then some f else E.findFunction? x :=
  Assoc.lookup_put name x f E.functions

/-- What `addFunction` registers is the function as `Function.validate` returns it, with its
index kept. -/
theorem addFunction_eq_ok (h : E.addFunction f = .ok E') :
    ∃ g, f.validate = .ok g ∧ E' = { E with functions := Assoc.put g.name g E.functions } := by
  unfold addFunction at h
  cases hg : f.validate with
  | error e =>
    rw [hg] at h
    cases h
  | ok g =>
    rw [hg] at h
    cases h
    exact ⟨g, rfl, rfl⟩

theorem addFunction_eq_error {e : LoopFault} (h : E.addFunction f = .error e) :
    f.validate = .error e := by
  unfold addFunction at h
  cases hg : f.validate with
  | error e' =>
    rw [hg] at h
    cases h
    rfl
  | ok g =>
    rw [hg] at h
    cases h

/-- On a registered function, `appendStatement` is `Function.append` in its place. -/
theorem appendStatement_of_find (hf : E.findFunction? name = some f) (s : Statement) :
    E.appendStatement name s = { E with functions := Assoc.put name (f.append s) E.functions } := by
  rw [appendStatement, hf]

end Engine

end BusScript
