import BuildPlan.Registry
import BuildPlan.Script.Machine

/-! # Sessions

A session is what the scripts of one run share: the registry they declare into, the tables and
global variables they made, the files that are being evaluated, what was printed, and the events
so far.  A `Run` is a computation in a session that may raise a value; what it did before it raised
stays done.

A panic that a script caught is a value of its own.  It goes on when the program takes the value
(`Session.take`), once; after that the program takes the value for nil. -/

namespace BuildPlan

/-- The files that a program sees, the directory that it runs in, and what it runs on. -/
structure Workspace where
  tree : FileTree
  directory : Location
  machine : Machine := .plain

/-- What the scripts of a run share. -/
structure Session where
  registry : Registry
  heap : Heap
  globals : Table
  /-- The files that are being evaluated, the innermost first, and those of which a panic broke
  the evaluation off. -/
  loading : List Location
  /-- How many serial numbers were given out so far; those in use are below it. -/
  made : Nat
  /-- The serial numbers of the panics that have gone on. -/
  spent : List Nat
  /-- What scripts have printed. -/
  printed : Bytes
  /-- What happened so far. -/
  events : Array Event
  machine : Machine

/-- A computation in a session that ends in an answer or raises a value. -/
abbrev Run := ExceptT Value (StateM Session)

/-- Why a function of the program does not come to its end. -/
inductive Interruption where
  | fault (f : Fault)
  | panic
  /-- A value that the function takes is a panic, which goes on. -/
  | resumed (serial : Nat)
deriving DecidableEq, Repr

namespace Session

/-- The global variable that holds the table of the evaluation state. -/
def stateName : Value := .text "trellis"

/-- The field of that table that names the directory of the file being evaluated. -/
def directoryField : Value := .text "dir"

/-- The table of the evaluation state at the start. -/
def stateTable : Table :=
  (Table.empty.set directoryField (.text ".")).set (.text "version") (.text "0.1.0")

/-- The functions that scripts find under global names. -/
def builtins : List (String × Builtin) := [
  ("project", .project), ("composite_target", .compositeTarget), ("include", .include),
  ("error", .raise), ("pcall", .protect), ("tostring", .describe), ("print", .print)]

/-- How many levels may be open at a time.  Levels are opened by chunks that run, by functions
that are called from outside of scripts, and by parts of a text inside one another. -/
def levelLimit : Nat := 199

/-- A session in which nothing happened. -/
def start (machine : Machine := .plain) : Session :=
  let (heap, state) := Heap.empty.alloc stateTable
  { registry := .empty
    heap
    globals := builtins.foldl (fun t (name, f) => t.set (.text name) (.function f))
      (Table.empty.set stateName (.table state))
    loading := []
    made := 0
    spent := []
    printed := []
    events := #[]
    machine }

/-- What the program has when it takes a value from a script. -/
def take (s : Session) : Value → Except Interruption Value
  | .panic n => if n ∈ s.spent then .ok .nil else .error (.resumed n)
  | v => .ok v

/-- The table that the program takes from a script. -/
def takeTable (s : Session) (problem : ConversionFault → Fault) (v : Value) :
    Except Interruption Ref := do
  (← s.take v).toTable.mapError fun e => .fault (problem e)

/-- The text that the program takes from a script. -/
def takeText (s : Session) (problem : ConversionFault → Fault) (v : Value) :
    Except Interruption String := do
  (← s.take v).toText.mapError fun e => .fault (problem e)

/-- The length that a table is found to have. -/
def length (s : Session) (r : Ref) : Nat :=
  s.machine.length (s.made + s.events.size) r (s.heap.get r)

/-- Why the program does not go on with what a script raises. -/
def failure (s : Session) : Value → Interruption
  | .panic n => if n ∈ s.spent then .fault .resumed else .resumed n
  | v => .fault (v.toFault s.machine)

end Session

namespace Run

/-- A serial number that no value has yet. -/
def serial : Run Nat := modifyGet fun s => (s.made, { s with made := s.made + 1 })

/-- Raises a fault, which is a value of its own. -/
def fault {α : Type} (f : Fault) : Run α := do throw (.fault (← serial) f)

/-- Panics. -/
def panic {α : Type} : Run α := do throw (.panic (← serial))

/-- Notes that a panic has gone on. -/
def spend (n : Nat) : Run Unit := modify fun s => { s with spent := n :: s.spent }

/-- The answer of a check, or what it stops with.  A panic that goes on is one of its own. -/
def check {α : Type} : Except Interruption α → Run α
  | .ok a => pure a
  | .error (.fault f) => fault f
  | .error .panic => panic
  | .error (.resumed n) => do
      spend n
      panic

/-- The text of what is raised when no more levels may be opened. -/
def exhaustedText : Bytes := Utf8.encode "C stack overflow"

/-- What is raised when no more levels may be opened. -/
def exhausted : Value := .string exhaustedText

/-- Runs to the end and answers how it ended. -/
def attempt {α : Type} (x : Run α) : Run (Except Value α) := ExceptT.lift x.run

/-- Notes events. -/
def log (events : List Event) : Run Unit := modify fun s => { s with events := s.events ++ events }

/-- Prints bytes. -/
def write (bytes : Bytes) : Run Unit := modify fun s => { s with printed := s.printed ++ bytes }

/-- The program takes a value from a script. -/
def receive (v : Value) : Run Value := do check ((← get).take v)

/-- The place of the table of the evaluation state: scripts can replace it, also by something
that is no table. -/
def stateTable : Run Ref := do
  let s ← get
  check (s.takeTable .conversion (s.globals.get Session.stateName))

/-- A field of a table. -/
def getField (r : Ref) (k : Value) : Run Value := do
  let s ← get
  return (s.heap.get r).get k

/-- Sets a field of a table. -/
def setField (r : Ref) (k v : Value) : Run Unit :=
  modify fun s => { s with heap := s.heap.set r ((s.heap.get r).set k v) }

/-- Makes a table. -/
def newTable (t : Table) : Run Value := do
  let s ← get
  let (heap, r) := s.heap.alloc t
  set { s with heap }
  return .table r

/-- Makes a function that does nothing. -/
def newFunction : Run Value := do return .function (.idle (← serial))

/-- Carries a run out in a session.  A value that nothing caught becomes a fault; of a panic there
is no result. -/
def perform {α : Type} (x : Run α) (s : Session) : Option (Except Fault α) × Session :=
  match x.run.run s with
  | (.ok a, s) => (some (.ok a), s)
  | (.error (.panic _), s) => (none, s)
  | (.error v, s) => (some (.error (v.toFault s.machine)), s)

end Run

end BuildPlan
