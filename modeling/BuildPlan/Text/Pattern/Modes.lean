import BuildPlan.Text.Blank

/-! # Modes of patterns

A pattern is read in modes, which it can change in brackets such as `(?i-u)`.  Most changes do not
matter for whether a pattern is well-formed; `Modes` holds those that do.

Patterns have no tables of the cases of letters or of the classes of characters.  So what needs such
a table is malformed: as long as a pattern is about characters, no letter can stand for its other
case and no escape can stand for the digits.  A pattern about bytes does without tables, but must
not match a part of a character. -/

namespace BuildPlan.Pattern

/-- How the rest of a pattern is read. -/
structure Modes where
  /-- A literal also stands for its other case. -/
  ignoreCase : Bool
  /-- The pattern is about characters, else about bytes. -/
  unicode : Bool
  /-- Blanks and comments in the pattern mean nothing. -/
  spaced : Bool
deriving DecidableEq, Repr

namespace Modes

/-- The modes at the start of a pattern. -/
def start : Modes := ⟨false, true, false⟩

/-- The modes with one of them turned on or off by its letter. -/
def turn (m : Modes) (letter : Char) (on : Bool) : Modes :=
  if letter = 'i' then { m with ignoreCase := on }
  else if letter = 'u' then { m with unicode := on }
  else if letter = 'x' then { m with spaced := on }
  else m

/-- Whether a literal is allowed; one of two hexadecimal digits can stand for a byte. -/
def allowsLiteral (m : Modes) (c : Char) (byte : Bool) : Bool :=
  if m.unicode then !m.ignoreCase else !byte || c.toNat < 128

/-- Whether a character is allowed in brackets. -/
def allowsMember (m : Modes) (c : Char) : Bool :=
  if m.unicode then !m.ignoreCase else c.toNat < 128

/-- Whether the class of an escape is allowed, or all but the class. -/
def allowsClass (m : Modes) (negated : Bool) : Bool := !m.unicode && !negated

/-- Whether a named class is allowed in brackets, or all but the class. -/
def allowsNamedClass (m : Modes) (negated : Bool) : Bool :=
  if m.unicode then !m.ignoreCase else !negated

/-! ### Blanks -/

/-- A text without the blanks and comments at its start; a comment goes from `#` to the end of the
line. -/
def skipBlanks (inComment : Bool) : List Char → List Char
  | [] => []
  | c :: cs =>
      if inComment then skipBlanks (c ≠ '\n') cs
      else if isSpace c then skipBlanks false cs
      else if c = '#' then skipBlanks true cs
      else c :: cs

/-- The rest of a pattern from the next character that means something. -/
def skip (m : Modes) (cs : List Char) : List Char := if m.spaced then skipBlanks false cs else cs

/-- The character that a look ahead over blanks finds.  It looks into a comment as well, and finds
the next character at once if there are only blanks. -/
def peek (m : Modes) (cs : List Char) : Option Char :=
  let found :=
    match cs.dropWhile isSpace with
    | '#' :: rest => (rest.dropWhile isSpace).head?
    | rest => rest.head?
  if m.spaced then found.or cs.head? else cs.head?

/-! ### Changes -/

/-- The letters of modes; those behind a minus sign are turned off. -/
def letters : List Char := ['i', 'm', 's', 'U', 'u', 'R', 'x', '-']

/-- Reads the letters of a change up to the colon or bracket behind them, each at most once;
`before` holds those that were read, the latest first.  A minus sign cannot be the last. -/
def read (m : Modes) (before : List Char) : List Char → Option (Modes × List Char × List Char)
  | [] => none
  | c :: cs =>
      if c = ':' || c = ')' then
        if before.head? = some '-' then none else some (m, before, c :: cs)
      else if !letters.contains c || before.contains c then none
      else (m.turn c (!before.contains '-')).read (c :: before) cs

end Modes

end BuildPlan.Pattern
