import BuildPlan.Event
import BuildPlan.Event.LogFilter.Excerpt
import BuildPlan.Text.Digit
import BuildPlan.Text.Pattern

/-! # Log filters

A filter says how much of the log is kept.  It is written as rules with commas between them: a
level such as `info` for all sources, a source such as `trellis_lib` for all of its lines, or both
as in `trellis_lib::resolve=trace`.  Behind the source a rule can say in brackets which lines it is
about: `[{depth}]` are those with a field of that name.  A rule holds for the lines it is about of
every source whose name begins like the one it names, and of the rules that hold for a line the
most special one counts (`LogFilter.rule?`).

Blanks belong to what they stand next to, so a level with a blank beside it is the name of a
source, and one that no source has. -/

namespace BuildPlan

/-- The lines of its sources that a rule is about. -/
inductive LogScope where
  | all
  /-- The lines with a field of this name. -/
  | withField (name : String)
  /-- The lines inside a span of time; the log tells of no spans, so these are none. -/
  | insideSpan
deriving DecidableEq, Repr

namespace LogScope

/-- Whether a line is one of those. -/
def covers : LogScope → LogLine → Bool
  | .all, _ => true
  | .withField name, l => l.hasField name
  | .insideSpan, _ => false

/-- The names of the fields that the lines must have. -/
def fields : LogScope → List String
  | .withField name => [name]
  | _ => []

/-- Whether a text is a decimal number without a sign, maybe with an exponent. -/
def isUnsigned (cs : List Char) : Bool :=
  let (whole, rest) := cs.span Char.isDigit
  let (fraction, rest) := match rest with
    | '.' :: rest => rest.span Char.isDigit
    | rest => ([], rest)
  let exponent := match rest.tail with
    | '+' :: ds | '-' :: ds | ds => ds
  !(whole ++ fraction).isEmpty
    && (rest.isEmpty
      || (rest.head?.any (·.toLower = 'e') && !exponent.isEmpty && exponent.all Char.isDigit))

/-- Whether a text is a number. -/
def isNumber (cs : List Char) : Bool :=
  let cs := match cs with
    | '+' :: cs | '-' :: cs | cs => cs
  isUnsigned cs || ["inf", "infinity", "nan"].contains (String.ofList (cs.map Char.toLower))

/-- The lines that the text between curly brackets names: a field, or a field and a value behind
`=`, which is a number or a pattern.  Only spans are asked for values, and for anything if a rule
names a span. -/
def ofField? (ofSpan : Bool) (field : List Char) : Option LogScope :=
  let (name, rest) := field.span (· ≠ '=')
  match rest with
  | [] =>
      if name.isEmpty then none
      else some (if ofSpan then .insideSpan else .withField (String.ofList name))
  | _ :: rest =>
      let value := rest.takeWhile (· ≠ '=')
      if isNumber value || isPattern value then some .insideSpan else none

/-- Reads which lines the square brackets name whose first one was read: `[span]`, `[{field}]` or
`[span{field}]`. -/
def read (e : Excerpt) : Option (LogScope × Excerpt) :=
  let (span, e) := e.upTo fun c => c = ']' || c = '\x7b'
  match e.rest with
  | ']' :: _ => some (.insideSpan, e.next)
  | '\x7b' :: _ =>
      let (field, e) := e.next.upTo (· = '\x7d')
      match e.rest with
      | '\x7d' :: ']' :: _ => (ofField? (!span.isEmpty) field).map (·, e.next.next)
      | _ => none
  | _ => none

end LogScope

/-- How much is kept of the lines of some sources. -/
structure LogRule where
  /-- The rule holds for the sources whose names begin so. -/
  start : List Char
  scope : LogScope
  /-- The most talkative level that is kept, if any is. -/
  limit : Option Level
deriving DecidableEq, Repr

namespace LogRule

/-- The words for limits. -/
def words : List (String × Option Level) := [
  ("off", none), ("error", some .error), ("warn", some .warn), ("info", some .info),
  ("debug", some .debug), ("trace", some .trace)]

/-- The number of a word, with or without a plus sign. -/
def number? (cs : List Char) : Option Nat :=
  let digits := if cs.head? = some '+' then cs.tail else cs
  if digits.isEmpty || !digits.all Char.isDigit then none else some (ofDigits 10 digits)

/-- The limit that a word or the number of a word names, in any case of letters. -/
def limit? (cs : List Char) : Option (Option Level) :=
  match number? cs with
  | some n => (words[n]?).map Prod.snd
  | none => words.lookup (String.ofList (cs.map Char.toLower))

/-- Whether a rule can begin with a character: a letter, a digit, `-`, `_`, `:` or a bracket. -/
def canStart (c : Char) : Bool := isAlphanumeric c || c = '-' || c = '_' || c = ':' || c = '['

/-- Reads the limit that stands at the end of a rule, behind `=`; all lines are kept without one,
and also without a word for one. -/
def readLimit (e : Excerpt) : Option (Option Level) :=
  match e.rest with
  | '=' :: _ => if e.next.remainder.isEmpty then some (some .trace) else limit? e.next.remainder
  | cs => if cs.all isSpace then some (some .trace) else none

/-- The rule that a text is, if it is one. -/
def ofText? (text : List Char) : Option LogRule := do
  let e := Excerpt.ofText text
  if !e.rest.head?.any canStart then none
  else
    let (start, e) := e.upTo fun c => c = '=' || c = '['
    match e.rest with
    | [] =>
        match limit? text with
        | some limit => some ⟨[], .all, limit⟩
        | none => some ⟨text, .all, some .trace⟩
    | '[' :: _ =>
        let (scope, e) ← LogScope.read e.next
        return ⟨start, scope, ← readLimit e⟩
    | _ => return ⟨start, .all, ← readLimit e⟩

example : ofText? "warn".toList = some ⟨[], .all, some .warn⟩ := by decide +kernel
example : ofText? "run=2".toList = some ⟨"run".toList, .all, some .warn⟩ := by decide +kernel
example : ofText? "run[\x7bpath\x7d]=off".toList
    = some ⟨"run".toList, .withField "path", none⟩ := by
  decide +kernel
example : ofText? "warn ".toList = some ⟨"warn ".toList, .all, some .trace⟩ := by decide +kernel

/-- Whether a rule holds for a line. -/
def holdsFor (r : LogRule) (l : LogLine) : Bool :=
  r.start.isPrefixOf l.source.toList && r.scope.covers l

/-- Whether a rule keeps lines of a level. -/
def keeps (r : LogRule) (level : Level) : Bool :=
  r.limit.any fun limit => level.rank ≤ limit.rank

/-- Whether a rule is more special than another for a line that both hold for: it names more of
the source, or as much of it and more fields, or later ones. -/
def narrower (r s : LogRule) : Bool :=
  s.start.length < r.start.length
    || r.start.length = s.start.length && decide (s.scope.fields < r.scope.fields)

end LogRule

/-- How much of the log is kept. -/
structure LogFilter where
  rules : List LogRule
deriving DecidableEq, Repr

namespace LogFilter

/-- The filter that keeps all lines up to a level. -/
def upTo (limit : Level) : LogFilter := ⟨[⟨[], .all, some limit⟩]⟩

/-- The parts of a text between commas; empty ones are none. -/
def parts (text : String) : List (List Char) :=
  (text.toList.splitOn ',').filter fun cs => !cs.isEmpty

/-- The filter that a text is, if all of its rules are well-formed. -/
def ofText? (text : String) : Option LogFilter := do
  return ⟨← (parts text).mapM LogRule.ofText?⟩

/-- The rule that counts for a line: of those that hold for it the most special one, and among
equals the last. -/
def rule? (f : LogFilter) (l : LogLine) : Option LogRule :=
  (f.rules.filter (·.holdsFor l)).foldl (fun best r =>
    if best.any (·.narrower r) then best else some r) none

/-- Whether a line is kept. -/
def keeps (f : LogFilter) (l : LogLine) : Bool := (f.rule? l).any (·.keeps l.level)

/-- The texts of the kept log lines of events. -/
def log (f : LogFilter) (events : List Event) : List String :=
  ((events.filterMap Event.line?).filter f.keeps).map LogLine.text

end LogFilter

end BuildPlan
