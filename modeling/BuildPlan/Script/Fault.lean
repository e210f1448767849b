import BuildPlan.FileTree
import BuildPlan.Target.Descriptor

/-! # Faults of a run

The ways in which declaring a target, loading a file or running a script goes wrong, with the
sentence for each.  A fault is a value that scripts can catch, keep and raise again.  Every
function of the program that it leaves on its way to a script puts it into another one
(`Fault.callback`), so the error of a declaration is found by looking into faults
(`Fault.planError?`). -/

namespace BuildPlan

/-- The types that values are told apart by. -/
inductive ValueType where
  | nil
  | boolean
  | integer
  | number
  | string
  | table
  | function
  | fault
deriving DecidableEq, Repr

namespace ValueType

/-- The word for a type in the messages of the declaration functions. -/
def word : ValueType → String
  | .nil => "nil"
  | .boolean => "boolean"
  | .integer => "integer"
  | .number => "number"
  | .string => "string"
  | .table => "table"
  | .function => "function"
  | .fault => "error"

/-- The word for a type in the messages of the script language, which has one type of numbers. -/
def scriptWord : ValueType → String
  | .integer => "number"
  | .fault => "userdata"
  | t => t.word

end ValueType

/-- Why a value cannot be taken for what is needed. -/
inductive ConversionFault where
  | notTable (found : ValueType)
  | notText (found : ValueType)
  | notFunction (found : ValueType)
  /-- The bytes of a string are no text. -/
  | badText (place : Utf8.Malformed)
  /-- The bytes of an entry of a list of names are no text. -/
  | badEntry (place : Utf8.Malformed)
deriving DecidableEq, Repr

/-- The sentence for a failed conversion. -/
def ConversionFault.message : ConversionFault → String
  | .notTable found => "error converting Lua " ++ found.word ++ " to table"
  | .notText found =>
      "error converting Lua " ++ found.word ++ " to String (expected string or number)"
  | .notFunction found => "error converting Lua " ++ found.word ++ " to function"
  | .badText place => "error converting Lua string to String (" ++ place.message ++ ")"
  | .badEntry place => "error converting Lua string to &str (" ++ place.message ++ ")"

/-- The script function that declares targets of a kind. -/
def Kind.function : Kind → String
  | .project => "project"
  | .composite => "composite_target"

/-- The field that lists the requirements of targets of a kind. -/
def Kind.field : Kind → String
  | .project => "requires"
  | .composite => "required"

/-- Why the table given to a declaration function specifies no target. -/
inductive DeclarationFault where
  | missingName (kind : Kind)
  | nameNotText (kind : Kind)
  | blankName (kind : Kind)
  /-- A composite comes without a list. -/
  | missingRequirements (kind : Kind) (target : String)
  | requirementsNotTable (kind : Kind) (target : String) (found : ValueType)
  | entryNotText (kind : Kind) (target : String) (found : ValueType)
deriving DecidableEq, Repr

/-- The sentence for a specification that is refused. -/
def DeclarationFault.message : DeclarationFault → String
  | .missingName kind => kind.function ++ " requires 'name' field"
  | .nameNotText kind => kind.function ++ " 'name' must be a string"
  | .blankName kind => kind.function ++ " 'name' cannot be empty"
  | .missingRequirements kind target =>
      kind.function ++ " '" ++ target ++ "' requires a '" ++ kind.field ++ "' table"
  | .requirementsNotTable kind target found =>
      kind.function ++ " '" ++ target ++ "': '" ++ kind.field ++ "' must be a table, got "
        ++ found.word
  | .entryNotText kind target found =>
      "'" ++ kind.field ++ "' of '" ++ target ++ "' must contain only strings, got " ++ found.word

/-- Why a declaration file is not run. -/
inductive LoadFault where
  /-- The path, as it was written, leads nowhere. -/
  | unresolved (path : String) (cause : PathError)
  | unreadable (location : Location) (cause : PathError)
  /-- The file is being evaluated already. -/
  | cycle (location : Location)
deriving DecidableEq, Repr

/-- The sentence for a file that is not run. -/
def LoadFault.message : LoadFault → String
  | .unresolved path cause => "cannot canonicalize '" ++ path ++ "': " ++ cause.message
  | .unreadable location cause => "cannot read '" ++ location.path ++ "': " ++ cause.message
  | .cycle location => "include cycle: '" ++ location.path ++ "' is already being evaluated"

/-- Everything that can end a run with an error. -/
inductive Fault where
  /-- A declaration contradicts the registry or is no composite. -/
  | plan (cause : PlanError)
  | declaration (cause : DeclarationFault)
  | load (cause : LoadFault)
  /-- The first argument of a function is of the wrong type. -/
  | argument (cause : ConversionFault)
  | conversion (cause : ConversionFault)
  /-- A script raised a text, or broke a rule of the language. -/
  | raised (text : String)
  /-- The text of a script is not well-formed. -/
  | malformed
  /-- A panic was met that has gone on before. -/
  | resumed
  /-- A function that a script called has failed. -/
  | callback (cause : Fault)
  /-- A fault with words that go before it. -/
  | context (words : String) (cause : Fault)
deriving DecidableEq, Repr

namespace Fault

/-- The error of a declaration that is a fault or stands in it. -/
def planError? : Fault → Option PlanError
  | .plan cause => some cause
  | .callback cause => cause.planError?
  | .context _ cause => cause.planError?
  | _ => none

/-- How a fault is told to a user: of one that functions have failed with, what it was at first. -/
def describe : Fault → String
  | .plan cause => cause.message
  | .declaration cause => cause.message
  | .load cause => cause.message
  | .argument cause => "bad argument #1: " ++ cause.message
  | .conversion cause => cause.message
  | .raised text => "runtime error: " ++ text
  | .malformed => "syntax error"
  | .resumed => "previously resumed panic returned again"
  | .callback cause => cause.describe
  | .context words cause => words ++ "\n" ++ cause.describe

end Fault

end BuildPlan
