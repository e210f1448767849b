import BuildPlan.Script.Chunk
import BuildPlan.Script.Token.Lexer

/-! # Readers

A reader takes tokens from the front of a text and keeps count of what the script needs at that
point: the registers in use, the local variables in scope, and the constants met so far.  The
language bounds each of them, so a text can be refused for its size alone. -/

namespace BuildPlan

/-- Why a text is refused. -/
inductive Refusal where
  /-- It is not well-formed, or needs too much at one point. -/
  | malformed
  /-- Its parts are nested too deeply. -/
  | tooDeep
deriving DecidableEq, Repr

/-- How far a text was read. -/
structure Reading where
  /-- The tokens that are left; the first is the current one. -/
  tokens : List Token
  /-- The line on which the token before the current one ends. -/
  line : Nat
  /-- The registers in use: one for each local variable, then those of unfinished expressions. -/
  used : Nat
  /-- The local variables in scope, the latest first. -/
  scope : List String
  /-- The first constants of the text, each once. -/
  constants : List Value

/-- A reader of a part of a text. -/
abbrev Reader := StateT Reading (Except Refusal)

namespace Reader

/-- How many registers there are. -/
def registerLimit : Nat := 254

/-- How many local variables there may be. -/
def localLimit : Nat := 200

/-- How many constants can be named where they are used; others need a register there. -/
def constantLimit : Nat := 256

/-- Refuses the text. -/
def refuse {α : Type} (r : Refusal) : Reader α := throw r

/-! ### Tokens -/

/-- The current token. -/
def current : Reader Token := do
  match (← get).tokens with
  | t :: _ => return t
  | [] => refuse .malformed

/-- Goes on to the next token, which must be one. -/
def advance : Reader Unit := do
  let s ← get
  match s.tokens with
  | t :: next :: rest =>
      if next.lexeme = .sign .broken then refuse .malformed
      set { s with tokens := next :: rest, line := t.line }
  | _ => refuse .malformed

/-- Whether the current token is a sign. -/
def sees (m : Sign) : Reader Bool := do return (← current).lexeme = .sign m

/-- Goes on behind a sign if it is the current token. -/
def accept (m : Sign) : Reader Bool := do
  if ← sees m then
    advance
    return true
  else return false

/-- Goes on behind a sign, which must be the current token. -/
def expect (m : Sign) : Reader Unit := do
  unless ← accept m do refuse .malformed

/-- Goes on behind a name. -/
def name : Reader String := do
  match (← current).lexeme with
  | .name n =>
      advance
      return n
  | _ => refuse .malformed

/-- Whether a sign follows the current token. -/
def seesNext (m : Sign) : Reader Bool := do
  match (← get).tokens with
  | _ :: next :: _ =>
      if next.lexeme = .sign .broken then refuse .malformed
      return next.lexeme = .sign m
  | _ => return false

/-! ### Registers and constants -/

/-- Takes registers into use. -/
def reserve (count : Nat) : Reader Unit := do
  let s ← get
  if registerLimit < s.used + count then refuse .malformed
  set { s with used := s.used + count }

/-- Gives registers back. -/
def release (count : Nat) : Reader Unit := modify fun s => { s with used := s.used - count }

/-- Gives back the registers beyond the first `used`. -/
def releaseTo (used : Nat) : Reader Unit := modify fun s => { s with used }

/-- Notes a constant; the answer is whether it is one of the first. -/
def note (v : Value) : Reader Bool := do
  let s ← get
  if s.constants.contains v then return true
  if s.constants.length < constantLimit then
    set { s with constants := v :: s.constants }
    return true
  else return false

/-- Whether a whole number needs no constant. -/
def isImmediate (i : Int) : Bool := -65535 ≤ i && i ≤ 65536

/-- Notes the constant that a value needs to be brought into a register. -/
def noteLoaded (v : Value) : Reader Unit := do
  let needed := match v with
    | .string _ => true
    | .integer i => !isImmediate i
    | .number x => !x.toInt?.any isImmediate
    | _ => false
  if needed then
    let _ ← note v

end Reader

end BuildPlan
