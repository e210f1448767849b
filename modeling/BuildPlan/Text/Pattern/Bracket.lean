import BuildPlan.Text.Pattern.Escape

/-! # Brackets in patterns

A bracket such as `[a-z_]` stands for a set of characters.  It holds characters, ranges, classes and
further brackets side by side, and operators between such rows: `&&`, `--` and `~~`.  A bracket is
read for its depth: how many brackets, rows and operators lie in one another at most. -/

namespace BuildPlan.Pattern

/-- Things side by side: how many they are, and the depth of the deepest one. -/
structure Row where
  count : Nat
  deepest : Nat
deriving DecidableEq, Repr

namespace Row

/-- Nothing. -/
def empty : Row := ⟨0, 0⟩

/-- The row with one more thing of some depth. -/
def add (r : Row) (depth : Nat) : Row := ⟨r.count + 1, max r.deepest depth⟩

/-- The depth of a row; one thing alone is no row. -/
def depth (r : Row) : Nat := if r.count ≤ 1 then r.deepest else r.deepest + 1

/-- The depth of a row together with what stands before it, if that is anything. -/
def depthBehind (r : Row) : Option Nat → Nat
  | none => r.depth
  | some before => max before r.depth + 1

end Row

namespace Bracket

/-- The names of classes. -/
def classNames : List String := ["alnum", "alpha", "ascii", "blank", "cntrl", "digit", "graph",
  "lower", "print", "punct", "space", "upper", "word", "xdigit"]

/-- Reads a named class such as `[:alpha:]` behind its bracket; `[:^alpha:]` is all but the class,
which the answer tells. -/
def readNamedClass? : List Char → Option (Bool × List Char)
  | ':' :: cs =>
      let negated := cs.head? = some '^'
      let (name, rest) := (if negated then cs.tail else cs).span (· ≠ ':')
      match rest with
      | ':' :: ']' :: rest =>
          if classNames.contains (String.ofList name) then some (negated, rest) else none
      | _ => none
  | _ => none

/-- Reads a character or an escape. -/
def readOne (m : Modes) : List Char → Option (Escape × List Char)
  | [] => none
  | c :: cs => if c = '\\' then Escape.read m cs else some (.literal c false, cs)

/-- Whether a character or an escape is allowed in brackets. -/
def allows (m : Modes) : Escape → Bool
  | .literal c _ => m.allowsMember c
  | .charClass negated => m.allowsClass negated
  | .place _ => false

/-- Whether a range is allowed in brackets: only characters make one, the least first. -/
def allowsRange (m : Modes) : Escape → Escape → Bool
  | .literal c _, .literal d _ => c ≤ d && m.allowsMember c && m.allowsMember d
  | _, _ => false

/-- Reads a character, an escape or a range.  A minus sign before the closing bracket or before
another one makes no range. -/
def readMember (m : Modes) (cs : List Char) : Option (List Char) := do
  let (first, rest) ← readOne m cs
  let rest := m.skip rest
  match rest with
  | [] => none
  | c :: behind =>
      if c ≠ '-' || m.peek behind = some ']' || m.peek behind = some '-' then
        if allows m first then some rest else none
      else
        let (last, rest) ← readOne m (m.skip behind)
        if allowsRange m first last then some rest else none

/-- Reads an operator. -/
def readOperator? : List Char → Option (List Char)
  | '&' :: '&' :: cs | '-' :: '-' :: cs | '~' :: '~' :: cs => some cs
  | _ => none

/-- Reads the start of a bracket behind its sign, which may say that the bracket stands for all
other characters. -/
def readStart (m : Modes) (cs : List Char) : Option (List Char) :=
  match m.skip cs with
  | '^' :: cs => if m.unicode then some cs else none
  | cs => some cs

/-- Reads a bracket to its end, with its depth.  `before` is the depth of what stands before the
last operator, `r` the row behind it.  At the opening of a bracket minus signs stand for themselves,
and so does a closing bracket that is its first member.  Every step reads a character, so the length
of the pattern bounds the steps. -/
def read (m : Modes) : Nat → Bool → Option Nat → Row → List Char → Option (Nat × List Char)
  | 0, _, _, _, _ => none
  | steps + 1, opening, before, r, cs =>
      match m.skip cs with
      | [] => none
      | c :: cs =>
          if opening && (c = '-' || (c = ']' && r.count = 0)) then
            if m.allowsMember c then read m steps (c = '-') before (r.add 0) cs else none
          else if c = ']' then some (r.depthBehind before + 1, cs)
          else if c = '[' then
            match readNamedClass? cs with
            | some (negated, cs) =>
                if m.allowsNamedClass negated then read m steps false before (r.add 0) cs else none
            | none => do
                let (depth, cs) ← read m steps true none .empty (← readStart m cs)
                read m steps false before (r.add depth) cs
          else
            match readOperator? (c :: cs) with
            | some cs => read m steps false (some (r.depthBehind before)) .empty cs
            | none => do read m steps false before (r.add 0) (← readMember m (c :: cs))

end Bracket

end BuildPlan.Pattern
