import BuildPlan.CommandLine.Report
import BuildPlan.Event.LogFilter

/-! # The command line

`respond` is the whole program as a function: from the files, the wanted log and the words
of the command line to an exit code and what is written to the two outputs. -/

namespace BuildPlan

/-- What the program answers. -/
structure Response where
  exitCode : UInt8
  /-- What scripts printed.  Its lines stand before the output. -/
  printed : Bytes
  output : String
  /-- The lines of the log, and of the error if there is one.  What is written of a panic when it
  begins is left out. -/
  errors : List String
  /-- The paths of the declaration files that were asked for. -/
  requested : List String

namespace CommandLine

/-- The version of the program. -/
def version : String := "0.1.0"

/-- How the program is used. -/
def usage : String := unlines [
  "Usage: trellis [-v] COMMAND",
  "",
  "Commands:",
  "  plan [FILE] [-r TARGET]... [--waves] [-o text|json]",
  "  check [FILE]",
  "  targets [FILE] [-o text|json]"]

/-- How much of the log is kept: what is asked for, if that is well-formed, else as much as
depends on how talkative the program shall be. -/
def logFilter (wanted : Option String) (verbose : Bool) : LogFilter :=
  (wanted.bind LogFilter.ofText?).getD (.upTo (if verbose then .debug else .warn))

/-- The paths of the declaration files that were asked for. -/
def requestedFiles (events : List Event) : List String :=
  events.filterMap fun
    | .fileRequested path => some path
    | _ => none

/-- Answers an invocation. -/
def respondTo (w : Workspace) (wanted : Option String) (i : Invocation) : Response :=
  let x := i.command.execute w
  let log := (logFilter wanted i.verbose).log x.events
  let requested := requestedFiles x.events
  match x.result with
  | some (.ok s) => ⟨0, x.printed, s, log, requested⟩
  | some (.error message) => ⟨1, x.printed, "", log ++ ["✗ " ++ message], requested⟩
  | none => ⟨101, x.printed, "", log, requested⟩

end CommandLine

open CommandLine in
/-- What the program answers to the words of a command line. -/
def respond (w : Workspace) (wanted : Option String) (words : List String) : Response :=
  match readArguments words with
  | .run i => respondTo w wanted i
  | .help => ⟨0, [], usage, [], []⟩
  | .version => ⟨0, [], "trellis " ++ version ++ "\n", [], []⟩
  | .refused reason => ⟨2, [], "", ["error: " ++ reason, ""] ++ [usage], []⟩

end BuildPlan
