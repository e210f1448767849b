import BuildPlan.Script.Chunk.Parser
import BuildPlan.Session.Evaluate

/-! # Loading declaration files

A file is found, read, checked against the files that are being evaluated, and then evaluated
with its own directory as the place from which it includes others.  When the evaluation ends with
an answer or an error, the directory and the set of open files are as before.  A panic passes by
what would put them back.

Every chunk that runs opens a level, and no file is evaluated inside itself; so the number of
levels bounds the depth of `Run.loadFile`. -/

namespace BuildPlan

/-- The number of bytes of the name of a chunk that are shown. -/
def shownLength : Nat := 59

/-- The name under which an inline chunk is shown: the start of its name. -/
def chunkName (name : String) : Bytes := (Utf8.encode name).take shownLength

/-- The name under which a file is shown: its path, or the end of it behind three dots. -/
def fileChunkName (l : Location) : Bytes :=
  let path := Utf8.encode l.path
  if path.length ≤ shownLength then path
  else Utf8.encode "..." ++ path.drop (path.length - (shownLength - 3))

namespace Run

/-- Reads and evaluates the text of a chunk on a level of its own, when `room` levels may still be
opened. -/
def evaluate (load : Loader) (room : Nat) (callers : List Caller) (chunk : Bytes)
    (source : String) : Run (List Value) :=
  match Chunk.ofText room source, room with
  | .ok c, room + 1 => Activation.run ⟨chunk, callers, load, room⟩ c
  | .ok _, 0 | .error .tooDeep, _ => throw exhausted
  | .error .malformed, _ => fault .malformed

/-- The location and the text of the file at a path. -/
def locate (w : Workspace) (path : String) : Run (Location × String) := do
  log [.fileRequested path]
  match w.tree.follow w.directory path with
  | .error e => fault (.load (.unresolved path e))
  | .ok l =>
      match w.tree.read l with
      | .error e => fault (.load (.unreadable l e))
      | .ok text =>
          if (← get).loading.contains l then fault (.load (.cycle l)) else return (l, text)

/-- Marks a file as open or, at the end, as no longer open. -/
def setLoading (f : List Location → List Location) : Run Unit :=
  modify fun s => { s with loading := f s.loading }

/-- Carries scripts out for the program: it takes the first of their answers, and fails with what
they raise. -/
def finish (x : Run (List Value)) : Run Value := do
  match ← attempt x with
  | .ok vs => receive (firstValue vs)
  | .error v => check (.error ((← get).failure v))

/-- Carries out what is done while a file is open, and closes the file: it is no longer open, and
the table of the evaluation state names the directory that it named before.  A panic goes on past
that. -/
def closing (l : Location) (state : Ref) (directory : Value) (x : Run Value) : Run Value := do
  match ← attempt x with
  | .error (.panic n) => throw (.panic n)
  | e => do
      setField state Session.directoryField (directory.renewed (← serial))
      setLoading (List.erase · l)
      MonadExcept.ofExcept e

/-- Evaluates the file at a path, inside which at most `depth` others may be open. -/
def loadFile (w : Workspace) (depth room : Nat) (callers : List Caller) (path : String) :
    Run Value := do
  let (l, text) ← locate w path
  log [.fileOpened l.path (← get).loading.length]
  let state ← stateTable
  let directory ← receive (← getField state Session.directoryField)
  setLoading (l :: ·)
  setField state Session.directoryField (.text l.parent.path)
  closing l state directory <| finish <| match depth with
    | 0 => throw exhausted
    | depth + 1 => evaluate (loadFile w depth) room callers (fileChunkName l) text

/-- Evaluates the file at a path. -/
def load (w : Workspace) : Loader := loadFile w Session.levelLimit

/-- Evaluates the file at a path from outside of scripts. -/
def loadFirst (w : Workspace) (path : String) : Run Value := load w Session.levelLimit [] path

/-- Checks that a text can be the name of a chunk, which has no NUL.  The place of one is told as
it is behind the mark that is put before the name. -/
def checkName (name : String) : Run Unit :=
  match (Utf8.encode name).idxOf? 0 with
  | none => return ()
  | some i =>
      fault (.raised ("invalid name: nul byte found in provided data at position: "
        ++ toString (i + 1)))

/-- Evaluates a text as a chunk with a name. -/
def loadText (w : Workspace) (source name : String) : Run Value := do
  checkName name
  finish (evaluate (load w) Session.levelLimit [] (chunkName name) source)

/-- Calls the function under a global name. -/
def callGlobal (w : Workspace) (name : String) (arguments : List Value) : Run Value := do
  match ← receive ((← get).globals.get (.text name)) with
  | .function f => finish (call (load w) (Session.levelLimit - 1) [] (.function f) arguments)
  | v => fault (.conversion (.notFunction v.type))

/-- A field of the table of the evaluation state. -/
def getState (field : String) : Run Value := do
  receive (← getField (← stateTable) (.text field))

/-- Sets a field of the table of the evaluation state. -/
def setState (field : String) (v : Value) : Run Unit := do
  setField (← stateTable) (.text field) v

end Run

end BuildPlan
