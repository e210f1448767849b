import BuildPlan.Script.Numeral
import BuildPlan.Session.Declare

/-! # Calling functions

What the functions do that scripts can call.  A call knows its callers, the innermost first:
`error` puts the place of one of them before a text.  A function that calls another one opens a
level.  Including a file needs the evaluation of scripts, so it is a parameter here.

The faults of the functions that the program adds to the language reach a script inside another
fault (`Run.callback`).  The functions that strings have as fields are left out: scripts that call
them are not considered here. -/

namespace BuildPlan

/-- Who called a function. -/
inductive Caller where
  /-- A script, shown as `chunk`, at a line, where the function is known under `name`. -/
  | script (chunk : Bytes) (line : Nat) (name : Option Bytes)
  /-- A function. -/
  | function
deriving DecidableEq, Repr

namespace Caller

/-- The place of a call as it stands before a message. -/
def place : Caller → Bytes
  | .script chunk line _ => chunk ++ Utf8.encode (":" ++ toString line ++ ": ")
  | .function => []

/-- The name under which the caller found the function. -/
def calledName : Caller → Option Bytes
  | .script _ _ name => name
  | .function => none

end Caller

/-- How a run evaluates the file at a path: when some levels may still be opened, for the callers
of the evaluation. -/
abbrev Loader := Nat → List Caller → String → Run Value

/-- How a value was found: as a variable, field or constant of a name. -/
structure Origin where
  kind : String
  name : Bytes

namespace Origin

/-- The name as it is shown; a NUL ends it. -/
def shownName (o : Origin) : Bytes := o.name.takeWhile (· ≠ 0)

/-- The words for an origin. -/
def words (o : Origin) : Bytes :=
  Utf8.encode (o.kind ++ " '") ++ o.shownName ++ Utf8.encode "'"

end Origin

namespace Run

/-- Raises a message at the place of the innermost caller. -/
def complain {α : Type} (callers : List Caller) (message : Bytes) : Run α :=
  throw (.string (((callers.head?.map Caller.place).getD []) ++ message))

/-- The complaint about the type of a value that was found somewhere. -/
def typeMessage (action : String) (found : Value) (origin : Option Origin) : Bytes :=
  Utf8.encode ("attempt to " ++ action ++ " a " ++ found.type.scriptWord ++ " value")
    ++ match origin with
      | some o => Utf8.encode " (" ++ o.words ++ Utf8.encode ")"
      | none => []

/-- The name of the global variable that holds a function. -/
def globalName (f : Builtin) : Run Bytes := do
  let names := (← get).globals.fields.filterMap fun
    | (.string name, .function g) => if g = f then some name else none
    | _ => none
  return names.getLast?.getD (Utf8.encode "?")

/-- Raises a complaint about an argument of a function. -/
def rejectArgument {α : Type} (callers : List Caller) (f : Builtin) (index : Nat)
    (problem : String) : Run α := do
  let name ← match callers.head?.bind Caller.calledName with
    | some name => pure name
    | none => globalName f
  complain callers (Utf8.encode ("bad argument #" ++ toString index ++ " to '") ++ name
    ++ Utf8.encode ("' (" ++ problem ++ ")"))

/-- The level that the second argument of `error` names: a number with a whole value of 64 bits,
of which the low 32 bits count. -/
def levelOf (callers : List Caller) (arguments : List Value) : Run Int :=
  match arguments with
  | [] | [_] | _ :: .nil :: _ => return 1
  | _ :: v :: _ =>
      match (Numeral.ofValue? v).map Value.key with
      | some (.integer i) => return Int.bmod i 0x100000000
      | some _ => rejectArgument callers .raise 2 "number has no integer representation"
      | none => rejectArgument callers .raise 2 ("number expected, got " ++ v.type.scriptWord)

/-- Raises the first argument.  A string gets the place of a caller before it: of the innermost
at level 1, of its caller at level 2, and so on. -/
def raise (callers : List Caller) (arguments : List Value) : Run (List Value) := do
  let level ← levelOf callers arguments
  match arguments.headD .nil with
  | .string bytes =>
      let place := if 0 < level then
          ((callers[level.toNat - 1]?).map Caller.place).getD []
        else []
      throw (.string (place ++ bytes))
  | v => throw v

/-- Evaluates a file named by its path from the directory of the file being evaluated. -/
def includeFile (load : Loader) (room : Nat) (callers : List Caller) (arguments : List Value) :
    Run Unit := do
  let path ← check ((← get).takeText .argument (arguments.headD .nil))
  let state ← stateTable
  let directory ← getField state Session.directoryField
  let directory ← check ((← get).takeText .conversion directory)
  let _ ← load room (.function :: callers) (Path.join directory path)

/-- Carries out a function of the program that a script has called: a fault of it is put into that
of the call. -/
def callback {α : Type} (x : Run α) : Run α := do
  match ← attempt x with
  | .ok a => return a
  | .error (.fault _ f) => fault (.callback f)
  | .error v => throw v

/-- The text of a value.  That of a fault or a panic is found on a level of its own, and a panic
that has gone on has none. -/
def describe (room : Nat) (v : Value) : Run Bytes := do
  let s ← get
  match v, room with
  | .fault _ _, 0 | .panic _, 0 => throw exhausted
  | .panic n, _ =>
      if n ∈ s.spent then fault (.callback .resumed) else return v.describe s.machine
  | v, _ => return v.describe s.machine

/-- Prints the texts of values with tabs between them, and ends the line. -/
def printLine (room : Nat) (separator : Bytes) : List Value → Run Unit
  | [] => write (Utf8.encode "\n")
  | v :: vs => do
      let text ← describe room v
      write (separator ++ text)
      printLine room (Utf8.encode "\t") vs

/-- Calls a value with arguments, when `room` levels may still be opened; only functions can be
called. -/
def call (load : Loader) : Nat → List Caller → Value → List Value → Run (List Value)
  | room, callers, .function .protect, g :: arguments => do
      let outcome ← attempt <| match room with
        | 0 => throw exhausted
        | room + 1 => call load room (.function :: callers) g arguments
      match outcome with
      | .ok answers => return .boolean true :: answers
      | .error v => return [.boolean false, v]
  | _, callers, .function .protect, [] => rejectArgument callers .protect 1 "value expected"
  | _, _, .function .project, arguments => do callback (declare .project arguments); return []
  | _, _, .function .compositeTarget, arguments => do
      callback (declare .composite arguments)
      return []
  | room, callers, .function .include, arguments => do
      callback (includeFile load room callers arguments)
      return []
  | _, callers, .function .raise, arguments => raise callers arguments
  | _, callers, .function .describe, [] => rejectArgument callers .describe 1 "value expected"
  | room, _, .function .describe, v :: _ => return [.string (← describe room v)]
  | room, _, .function .print, arguments => do printLine room [] arguments; return []
  | _, _, .function (.textField _), _ | _, _, .function (.idle _), _ => return []
  | _, _, v, _ => throw (.string (typeMessage "call" v none))

end Run

end BuildPlan
