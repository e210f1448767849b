import BuildPlan.Text.Alphanumeric
import BuildPlan.Text.Pattern.Bracket

/-! # Patterns

A pattern stands for a set of texts, as in `(core|docs)-[a-z]*`.  No text is ever held against one
here; `isPattern` tells whether a text is a well-formed pattern.

A pattern is read in one pass, which answers its depth: how many groups, alternatives, rows,
repetitions and brackets lie in one another at most. -/

namespace BuildPlan

namespace Pattern

/-- What is read of an alternative: its parts, and the depth of the last part if that can be
repeated. -/
structure Branch where
  row : Row
  last : Option Nat
deriving DecidableEq, Repr

namespace Branch

/-- The empty alternative. -/
def empty : Branch := ⟨.empty, none⟩

/-- An alternative with one more part of some depth. -/
def add (b : Branch) (depth : Nat) : Branch := ⟨b.row.add depth, some depth⟩

/-- An alternative with a change of modes behind it. -/
def change (b : Branch) : Branch := ⟨b.row.add 0, none⟩

/-- An alternative with its last part repeated. -/
def repeat? (b : Branch) : Option Branch :=
  b.last.map fun depth => ⟨⟨b.row.count, max b.row.deepest (depth + 1)⟩, some (depth + 1)⟩

end Branch

/-! ### Groups -/

/-- What begins with a round bracket. -/
inductive Opening where
  /-- A change of modes, which holds up to the end of the group that it stands in. -/
  | change (m : Modes)
  /-- A group that is read in modes of its own. -/
  | group (m : Modes)
  /-- A group with a name. -/
  | named (name : List Char)

/-- Whether a text is the name of a group: it begins with a letter or `_`, and goes on with letters,
digits, `_`, `.` and square brackets. -/
def isGroupName : List Char → Bool
  | [] => false
  | c :: cs =>
      (c = '_' || isAlphabetic c)
        && cs.all fun c => isAlphanumeric c || ['_', '.', '[', ']'].contains c

/-- Reads the name of a group up to the angle bracket behind it. -/
def readGroupName (cs : List Char) : Option (Opening × List Char) :=
  let (name, rest) := cs.span (· ≠ '>')
  match rest with
  | [] => none
  | _ :: rest => if isGroupName name then some (.named name, rest) else none

/-- Reads what stands behind a round bracket and makes it a group or a change of modes.  A change
of nothing is none. -/
def readOpening (m : Modes) : List Char → Option (Opening × List Char)
  | '?' :: 'P' :: '<' :: cs | '?' :: '<' :: cs => readGroupName cs
  | '?' :: cs => do
      match ← m.read [] cs with
      | (m, letters, ')' :: rest) => if letters.isEmpty then none else some (.change m, rest)
      | (m, _, rest) => some (.group m, rest.tail)
  | cs => some (.group m, cs)

/-! ### Patterns -/

/-- What a part of a pattern was read for: its depth, the names of groups up to its end, and what
follows it. -/
structure Measured where
  depth : Nat
  names : List (List Char)
  rest : List Char

/-- Reads the alternatives of a group up to the round bracket or the end behind them.  `before` is
the depth of the alternatives before the last one, `b` is the last one.  A repetition with counts
ends in a curly bracket that field values cannot hold, so its start is malformed.  Every step reads
a character, so the length of the pattern bounds the steps. -/
def read : Nat → Modes → List (List Char) → Option Nat → Branch → List Char → Option Measured
  | 0, _, _, _, _, _ => none
  | steps + 1, m, names, before, b, cs =>
      match m.skip cs with
      | [] => some ⟨b.row.depthBehind before, names, []⟩
      | c :: cs =>
          if c = ')' then some ⟨b.row.depthBehind before, names, c :: cs⟩
          else if c = '|' then
            read steps m names (some (max (before.getD 0) b.row.depth)) .empty cs
          else if c = '(' then do
            let inGroup (n : Modes) (names : List (List Char)) (cs : List Char) : Option Measured :=
              match read steps n names none .empty cs with
              | some ⟨depth, names, _ :: rest⟩ =>
                  read steps m names before (b.add (depth + 1)) rest
              | _ => none
            match ← readOpening m (m.skip cs) with
            | (.change n, cs) => read steps n names before b.change cs
            | (.group n, cs) => inGroup n names cs
            | (.named name, cs) =>
                if names.contains name then none else inGroup m (name :: names) cs
          else if c = '[' then do
            let (depth, cs) ← Bracket.read m steps true none .empty (← Bracket.readStart m cs)
            read steps m names before (b.add depth) cs
          else if c = '?' || c = '*' || c = '+' then do
            read steps m names before (← b.repeat?) (if cs.head? = some '?' then cs.tail else cs)
          else if c = '\x7b' then none
          else if c = '\\' then do
            let (escape, cs) ← Escape.read m cs
            let allowed := match escape with
              | .literal c byte => m.allowsLiteral c byte
              | .charClass negated => m.allowsClass negated
              | .place atWord => !(atWord && m.unicode)
            if allowed then read steps m names before (b.add 0) cs else none
          else if c = '.' then
            if m.unicode then read steps m names before (b.add 0) cs else none
          else if c = '^' || c = '$' || m.allowsLiteral c false then
            read steps m names before (b.add 0) cs
          else none

/-- How deep a pattern may be. -/
def depthLimit : Nat := 250

end Pattern

open Pattern in
/-- Whether a text is a well-formed pattern. -/
def isPattern (cs : List Char) : Bool :=
  match Pattern.read (cs.length + 1) .start [] none .empty cs with
  | some ⟨depth, _, []⟩ => depth ≤ depthLimit
  | _ => false

namespace Pattern

example : isPattern "(core|docs)-[a-z]*".toList = true := by decide +kernel
example : isPattern "a|*".toList = false := by decide +kernel
example : isPattern "(?-u)[\\d.]+".toList = true := by decide +kernel
example : isPattern "\\d+".toList = false := by decide +kernel

end Pattern

end BuildPlan
