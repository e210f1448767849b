import BuildPlan.Target.Descriptor

/-! # Events and log lines

What a run does is recorded as a list of events, oldest first.  Most events have a log line
of a fixed level, written by a fixed part of the program (`Event.line?`); which lines are kept is
the business of a filter. -/

namespace BuildPlan

/-- How important a log line is, least talkative first. -/
inductive Level where
  | error
  | warn
  | info
  | debug
  | trace
deriving DecidableEq, Repr

namespace Level

/-- The place of a level, more talkative levels later. -/
def rank : Level → Nat
  | .error => 1
  | .warn => 2
  | .info => 3
  | .debug => 4
  | .trace => 5

/-- The word for a level, aligned to the right in five columns. -/
def label : Level → String
  | .error => "ERROR"
  | .warn => " WARN"
  | .info => " INFO"
  | .debug => "DEBUG"
  | .trace => "TRACE"

end Level

/-- A line of the log: a message and named values that go with it. -/
structure LogLine where
  level : Level
  /-- The part of the program that writes the line. -/
  source : String
  message : String
  /-- The names and the texts of the values. -/
  fields : List (String × String)
deriving DecidableEq, Repr

namespace LogLine

/-- The text of a log line. -/
def text (l : LogLine) : String :=
  l.level.label ++ " " ++ l.source ++ ": " ++ l.message
    ++ String.join (l.fields.map fun field => " " ++ field.1 ++ "=" ++ field.2)

/-- Whether a line has a value of a name; the message counts as one. -/
def hasField (l : LogLine) (name : String) : Bool :=
  name = "message" || l.fields.any fun field => field.1 = name

end LogLine

/-- One thing that happened during a run. -/
inductive Event where
  /-- A composite listed a requirement again. -/
  | repeatDropped (target requirement : TargetName)
  /-- A composite was built from a list of requirements. -/
  | composed (target : TargetName) (requirements : Nat)
  /-- A target was declared for the first time. -/
  | registered (target : TargetName) (kind : Kind)
  /-- A target was declared again with the same definition. -/
  | redeclared (target : TargetName)
  /-- Resolution entered a target that has `depth` open ancestors. -/
  | visiting (target : TargetName) (kind : Kind) (depth : Nat)
  /-- Resolution ended in a plan. -/
  | resolved (targets : Nat)
  /-- A declaration file was asked for, by a path as it was written. -/
  | fileRequested (path : String)
  /-- A declaration file begins to run; `depth` files run already. -/
  | fileOpened (path : String) (depth : Nat)
  /-- A declaration file was evaluated to its end. -/
  | evaluated (path : String) (targets : Nat)
deriving DecidableEq, Repr

namespace Event

/-- The log line of an event, if it has one. -/
def line? : Event → Option LogLine
  | .repeatDropped target requirement =>
      some ⟨.debug, "trellis_lib::target::types", "dropping repeated requirement",
        [("target_name", target.text), ("requirement", requirement.text)]⟩
  | .composed target requirements =>
      some ⟨.debug, "trellis_lib::compose", "composed target",
        [("target_name", target.text), ("requirements", toString requirements)]⟩
  | .registered target kind =>
      some ⟨.debug, "trellis_lib::registry", "registered target",
        [("target_name", target.text), ("kind", kind.text)]⟩
  | .redeclared target =>
      some ⟨.debug, "trellis_lib::registry", "ignoring identical redeclaration",
        [("target_name", target.text)]⟩
  | .visiting target kind depth =>
      some ⟨.trace, "trellis_lib::resolve", "visiting",
        [("target_name", target.text), ("kind", kind.text), ("depth", toString depth)]⟩
  | .resolved targets =>
      some ⟨.debug, "trellis_lib::resolve", "resolved build plan",
        [("targets", toString targets)]⟩
  | .fileRequested _ => none
  | .fileOpened path _ =>
      some ⟨.debug, "trellis_lib::lua::runtime", "evaluating declaration file", [("path", path)]⟩
  | .evaluated path targets =>
      some ⟨.info, "trellis_lib::eval", "evaluated declarations",
        [("path", path), ("targets", toString targets)]⟩

end Event

end BuildPlan
