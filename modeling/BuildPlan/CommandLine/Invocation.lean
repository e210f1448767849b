/-! # Invocations

What the words of a command line ask for.  `readArguments` goes through the words from left to
right, and the first one that is wrong or asks for help decides.  An option that takes a value
takes the rest of its word or the next word, which must not look like an option. -/

namespace BuildPlan

/-- How a report is written. -/
inductive Format where
  | text
  | json
deriving DecidableEq, Repr

/-- What the program can be asked to do. -/
inductive Command where
  /-- Shows the build plan of some targets, or of the top-level ones if none is named. -/
  | plan (file : String) (roots : List String) (waves : Bool) (format : Format)
  /-- Checks that all declared targets have a plan. -/
  | check (file : String)
  /-- Lists the declared targets. -/
  | targets (file : String) (format : Format)
deriving DecidableEq, Repr

/-- A command and how talkative to be. -/
structure Invocation where
  command : Command
  verbose : Bool
deriving DecidableEq, Repr

/-- What a command line comes to. -/
inductive Request where
  | run (i : Invocation)
  | help
  | version
  /-- The words make no sense, for this reason. -/
  | refused (reason : String)
deriving DecidableEq, Repr

namespace CommandLine

/-- The declaration file that is evaluated when none is named. -/
def defaultFile : String := "build.lua"

/-- The names of the commands. -/
inductive Verb where
  | plan
  | check
  | targets
deriving DecidableEq, Repr

/-- The command with a name. -/
def Verb.ofName? : String → Option Verb
  | "plan" => some .plan
  | "check" => some .check
  | "targets" => some .targets
  | _ => none

/-- The options of commands. -/
inductive Flag where
  | verbose
  | help
  | root
  | waves
  | output
deriving DecidableEq, Repr

namespace Flag

/-- The option of one letter. -/
def ofLetter? : Char → Option Flag
  | 'v' => some .verbose
  | 'h' => some .help
  | 'r' => some .root
  | 'o' => some .output
  | _ => none

/-- The option with a name. -/
def ofName? : String → Option Flag
  | "verbose" => some .verbose
  | "help" => some .help
  | "root" => some .root
  | "waves" => some .waves
  | "output" => some .output
  | _ => none

/-- Whether an option needs a value. -/
def takesValue : Flag → Bool
  | .root => true
  | .output => true
  | _ => false

/-- Whether a command knows an option. -/
def belongsTo : Flag → Verb → Bool
  | .verbose, _ => true
  | .help, _ => true
  | .root, v => v = .plan
  | .waves, v => v = .plan
  | .output, v => v = .plan || v = .targets

end Flag

/-- Why the words need no further reading. -/
inductive Halt where
  | help
  | version
  | refused (reason : String)

/-- What a halt comes to. -/
def Halt.request : Halt → Request
  | .help => .help
  | .version => .version
  | .refused reason => .refused reason

/-- What was read of the words of a command. -/
structure Draft where
  file : Option String
  /-- The roots, the latest first. -/
  roots : List String
  waves : Bool
  format : Option Format
  verbose : Bool
  /-- Whether everything from here on is the name of a file. -/
  filesOnly : Bool

namespace Draft

/-- The draft before any word. -/
def start : Draft := ⟨none, [], false, none, false, false⟩

/-- The command that was drafted. -/
def command (d : Draft) : Verb → Command
  | .plan => .plan (d.file.getD defaultFile) d.roots.reverse d.waves (d.format.getD .text)
  | .check => .check (d.file.getD defaultFile)
  | .targets => .targets (d.file.getD defaultFile) (d.format.getD .text)

/-- Takes the name of the declaration file. -/
def setFile (d : Draft) (file : String) : Except Halt Draft :=
  if file.isEmpty then .error (.refused "the file name is empty")
  else
    match d.file with
    | some _ => .error (.refused ("unexpected argument " ++ file))
    | none => .ok { d with file := some file }

/-- Takes an option without a value. -/
def setFlag (d : Draft) (flag : Flag) : Except Halt Draft :=
  match flag with
  | .help => .error .help
  | .verbose =>
      if d.verbose then .error (.refused "--verbose is repeated")
      else .ok { d with verbose := true }
  | .waves =>
      if d.waves then .error (.refused "--waves is repeated") else .ok { d with waves := true }
  | .root => .error (.refused "--root needs a value")
  | .output => .error (.refused "--output needs a value")

/-- Takes an option with its value. -/
def setValue (d : Draft) (flag : Flag) (value : String) : Except Halt Draft :=
  match flag with
  | .root => .ok { d with roots := value :: d.roots }
  | .output =>
      match d.format, value with
      | some _, _ => .error (.refused "--output is repeated")
      | none, "text" => .ok { d with format := some .text }
      | none, "json" => .ok { d with format := some .json }
      | none, _ => .error (.refused ("unknown output format " ++ value))
  | _ => .error (.refused "the option takes no value")

end Draft

/-- A word as an argument: the name of an option with its attached value, a cluster of letters,
the end of the options, or plain. -/
inductive Word where
  | long (name : String) (value : Option String)
  | letters (cs : List Char)
  | endOfOptions
  | plain (text : String)

/-- What a word is by its form. -/
def Word.ofText (text : String) : Word :=
  match text.toList with
  | ['-', '-'] => .endOfOptions
  | '-' :: '-' :: cs =>
      let name := String.ofList (cs.takeWhile (· ≠ '='))
      match cs.dropWhile (· ≠ '=') with
      | _ :: value => .long name (some (String.ofList value))
      | [] => .long name none
  | '-' :: c :: cs => .letters (c :: cs)
  | _ => .plain text

/-- Whether a word can be the value of the option before it. -/
def isValue (text : String) : Bool :=
  match Word.ofText text with
  | .plain _ => true
  | _ => false

/-- The error of an option that a command does not know. -/
def unknownOption {α : Type} : Except Halt α := .error (.refused "unknown option")

/-- Takes a cluster of letters; the answer names the option that still needs a value. -/
def readLetters (verb : Verb) (d : Draft) : List Char → Except Halt (Draft × Option Flag)
  | [] => .ok (d, none)
  | c :: cs =>
      match Flag.ofLetter? c with
      | none => unknownOption
      | some flag =>
          if !flag.belongsTo verb then unknownOption
          else if flag.takesValue then
            match cs with
            | [] => .ok (d, some flag)
            | '=' :: value => (d.setValue flag (String.ofList value)).map (·, none)
            | value => (d.setValue flag (String.ofList value)).map (·, none)
          else
            match d.setFlag flag with
            | .ok d => readLetters verb d cs
            | .error h => .error h

/-- Takes a word; the answer names the option that still needs a value. -/
def readWord (verb : Verb) (d : Draft) (text : String) : Except Halt (Draft × Option Flag) :=
  if d.filesOnly then (d.setFile text).map (·, none)
  else
    match Word.ofText text with
    | .plain text => (d.setFile text).map (·, none)
    | .endOfOptions => .ok ({ d with filesOnly := true }, none)
    | .letters cs => readLetters verb d cs
    | .long name value =>
        match Flag.ofName? name, value with
        | none, _ => unknownOption
        | some flag, value =>
            if !flag.belongsTo verb then unknownOption
            else
              match flag.takesValue, value with
              | true, some value => (d.setValue flag value).map (·, none)
              | true, none => .ok (d, some flag)
              | false, some _ => .error (.refused "the option takes no value")
              | false, none => (d.setFlag flag).map (·, none)

/-- Reads the words behind the name of a command, given an option that waits for its value. -/
def readWords (verb : Verb) : Draft → Option Flag → List String → Except Halt Draft
  | d, none, [] => .ok d
  | _, some _, [] => .error (.refused "a value is missing")
  | d, some flag, text :: words =>
      if isValue text then
        match d.setValue flag text with
        | .ok d => readWords verb d none words
        | .error h => .error h
      else .error (.refused "a value is missing")
  | d, none, text :: words =>
      match readWord verb d text with
      | .ok (d, waiting) => readWords verb d waiting words
      | .error h => .error h

/-- Takes a cluster of letters before the name of a command. -/
def readFirstLetters (verbose : Bool) : List Char → Except Halt Bool
  | [] => .ok verbose
  | 'v' :: cs =>
      if verbose then .error (.refused "--verbose is repeated") else readFirstLetters true cs
  | 'h' :: _ => .error .help
  | 'V' :: _ => .error .version
  | _ => unknownOption

/-- What the words behind `help` ask for: the help of the program or of one command. -/
def readHelp : List String → Request
  | [] => .help
  | [topic] =>
      if topic = "help" || (Verb.ofName? topic).isSome then .help
      else .refused ("unknown command " ++ topic)
  | _ => .refused "unknown command"

/-- Reads a whole command line. -/
def readFirst (verbose : Bool) : List String → Request
  | [] => .refused "a command is missing"
  | text :: words =>
      match Word.ofText text with
      | .endOfOptions => .refused "a command is missing"
      | .letters cs =>
          match readFirstLetters verbose cs with
          | .ok verbose => readFirst verbose words
          | .error h => h.request
      | .long "verbose" none =>
          if verbose then .refused "--verbose is repeated" else readFirst true words
      | .long "help" none => .help
      | .long "version" none => .version
      | .long _ _ => .refused "unknown option"
      | .plain "help" => readHelp words
      | .plain name =>
          match Verb.ofName? name with
          | none => .refused ("unknown command " ++ name)
          | some verb =>
              match readWords verb .start none words with
              | .ok d => .run ⟨d.command verb, verbose || d.verbose⟩
              | .error h => h.request

end CommandLine

/-- What the words of a command line ask for. -/
def readArguments (words : List String) : Request := CommandLine.readFirst false words

end BuildPlan
