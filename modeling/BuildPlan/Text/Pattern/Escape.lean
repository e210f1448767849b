import BuildPlan.Text.Digit
import BuildPlan.Text.Pattern.Modes

/-! # Escapes in patterns

What a backslash and the characters behind it stand for. -/

namespace BuildPlan.Pattern

/-- What an escape stands for. -/
inductive Escape where
  /-- A character, `byte` if it is written so that it can be a byte. -/
  | literal (c : Char) (byte : Bool)
  /-- A class of characters, or all others. -/
  | charClass (negated : Bool)
  /-- A place in a text, `atWord` if words tell it. -/
  | place (atWord : Bool)
deriving DecidableEq, Repr

namespace Escape

/-- The characters that stand for themselves behind a backslash: those of ASCII that are neither
letters nor digits, without the angle brackets. -/
def isPlain (c : Char) : Bool := c.toNat < 128 && !c.isAlphanum && c ≠ '<' && c ≠ '>'

/-- The characters that have a letter as their escape. -/
def letters : List (Char × Char) := [
  ('a', '\x07'), ('f', '\x0c'), ('t', '\t'), ('n', '\n'), ('r', '\r'), ('v', '\x0b')]

/-- Reads hexadecimal digits, so many as `count` says, behind digits of the value `n`. -/
def readDigits (m : Modes) : Nat → Nat → List Char → Option (Nat × List Char)
  | 0, n, cs => some (n, cs)
  | count + 1, n, cs =>
      match cs with
      | [] => none
      | c :: cs => do readDigits m count (n * 16 + (← digitValue? c)) (m.skip cs)

/-- Reads the character with a code of so many hexadecimal digits. -/
def readCode (m : Modes) (count : Nat) (cs : List Char) : Option (Escape × List Char) := do
  let (n, cs) ← readDigits m count 0 (m.skip cs)
  if n.isValidChar then some (.literal (Char.ofNat n) (count = 2), cs) else none

/-- Reads an escape behind its backslash. -/
def read (m : Modes) : List Char → Option (Escape × List Char)
  | [] => none
  | c :: cs =>
      if c = 'x' then readCode m 2 cs
      else if c = 'u' then readCode m 4 cs
      else if c = 'U' then readCode m 8 cs
      else if ['d', 's', 'w'].contains c then some (.charClass false, cs)
      else if ['D', 'S', 'W'].contains c then some (.charClass true, cs)
      else if ['A', 'z'].contains c then some (.place false, cs)
      else if ['b', 'B', '<', '>'].contains c then some (.place true, cs)
      else if isPlain c then some (.literal c false, cs)
      else (letters.lookup c).map fun found => (.literal found false, cs)

end Escape

end BuildPlan.Pattern
