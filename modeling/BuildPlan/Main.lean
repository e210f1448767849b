import BuildPlan.CommandLine

/-! # The program

Prints what `respond` answers.  Which files a run asks for is known only when it has run, so the
program runs again, each time with the files that the run before asked for, until a run asks for
nothing new. -/

namespace BuildPlan.Program

/-- What stands at a location. -/
def probe (l : Location) : IO (Option Entry) := do
  try
    let content ← IO.FS.readBinFile l.path
    return some (.file content.toList)
  catch e =>
    match e with
    | .noFileOrDirectory .. => return none
    | .inappropriateType .. => return some .directory
    | _ => return none

/-- The entries that a path leads past. -/
def explore (directory : Location) (path : String) : IO (List (Location × Entry)) := do
  let start := if Path.isAbsolute path then Location.root else directory
  (Path.trail start (Path.components path)).filterMapM fun l => do
    return (← probe l).map fun e => (l, e)

/-- Answers the words of a command line from the files on disk. -/
partial def answer (directory : Location) (wanted : Option String) (words : List String)
    (entries : List (Location × Entry)) (asked : List String) : IO Response := do
  let r := respond { tree := ⟨entries⟩, directory } wanted words
  match r.requested.find? fun path => !asked.contains path with
  | none => return r
  | some path =>
      answer directory wanted words (entries ++ (← explore directory path)) (path :: asked)

end BuildPlan.Program

open BuildPlan in
/-- Runs the program in the current directory. -/
def main (words : List String) : IO UInt32 := do
  let directory := Path.location (← IO.currentDir).toString
  let r ← Program.answer directory (← IO.getEnv "RUST_LOG") words [(directory, .directory)] []
  r.errors.forM fun line => IO.eprintln line
  (← IO.getStdout).write (ByteArray.mk r.printed.toArray)
  IO.print r.output
  return r.exitCode.toUInt32
