import BuildPlan.Script.Chunk.Operand

/-! # Reading chunks

`Chunk.ofText` reads the text of a script.  A text that is a list of expressions answers their
values, any other is read as statements.

A statement, an expression inside another one, and every further target of an assignment open a
level; `room` is the number of levels that may still be opened.  So readers of expressions go
down with the room, and within a level every step reads a token, whence the number of tokens
bounds the `steps`. -/

namespace BuildPlan

namespace Expr

section

variable (inner : Bool → Reader Operand)

/-- Reads expressions with commas between them; all but the last are pushed. -/
def readList : Nat → Reader (List Expr × Operand)
  | 0 => Reader.refuse .malformed
  | steps + 1 => do
      let o ← inner true
      if ← Reader.accept .comma then
        let o ← o.push
        let (es, last) ← readList steps
        return (o.expr :: es, last)
      else return ([], o)

/-- Reads a key in brackets. -/
def readKey : Reader Operand := do
  Reader.expect .leftBracket
  let key ← (← inner true).settle
  Reader.expect .rightBracket
  return key

/-- Reads a field of a table under a key. -/
def readKeyed : Reader Field := do
  let used := (← get).used
  let key ←
    if ← Reader.sees .leftBracket then readKey inner
    else do pure (Operand.constant (.text (← Reader.name)))
  Reader.expect .equals
  let key ← key.keepKey
  let value ← (← inner true).keep
  let line := (← get).line
  Reader.releaseTo used
  return .keyed key.expr value.expr line

/-- How many items of a table are stored at a time. -/
def itemBatch : Nat := 50

/-- Reads the fields of a table up to its closing brace; the table is in the last of the first
`used` registers.  `before` holds the fields read, the latest first, `waiting` the item that was
read last and is not pushed yet, and `count` is the number of items that wait to be stored. -/
def readFields (used : Nat) : Nat → List Field → Option Operand → Nat → Reader (List Field)
  | 0, _, _, _ => Reader.refuse .malformed
  | steps + 1, before, waiting, count => do
      if ← Reader.sees .rightBrace then finish before waiting count
      else
        let (before, count) ← match waiting with
          | none => pure (before, count)
          | some o => do
              let o ← o.push
              if count = itemBatch then Reader.releaseTo used
              pure (.item o.expr :: before, if count = itemBatch then 0 else count)
        let keyed ← match (← Reader.current).lexeme with
          | .name _ => Reader.seesNext .equals
          | lexeme => pure (lexeme = .sign .leftBracket)
        let (before, waiting, count) ←
          if keyed then do pure ((← readKeyed inner) :: before, none, count)
          else do pure (before, some (← inner true), count + 1)
        let more ← Reader.accept .comma
        let more ← if more then pure true else Reader.accept .semicolon
        if more then readFields used steps before waiting count
        else finish before waiting count
where
  /-- Reads the closing brace and stores the last items. -/
  finish (before : List Field) (waiting : Option Operand) (count : Nat) :
      Reader (List Field) := do
    Reader.expect .rightBrace
    let before ← match waiting with
      | none => pure before
      | some o => do
          let o ← if o.isCall then pure o else o.push
          pure (.item o.expr :: before)
    unless count = 0 do Reader.releaseTo used
    return before.reverse

/-- Reads a table. -/
def readTable (steps : Nat) : Reader Operand := do
  Reader.reserve 1
  let used := (← get).used
  Reader.expect .leftBrace
  let fields ← readFields inner used steps [] none 0
  return ⟨.table fields, .register⟩

/-- Reads the arguments of a call: expressions in parentheses, a table, or a string. -/
def readArguments (steps : Nat) : Reader (List Expr) := do
  match (← Reader.current).lexeme with
  | .literal v =>
      Reader.advance
      return [(← (Operand.constant v).push).expr]
  | .sign .leftBrace => return [(← (← readTable inner steps).push).expr]
  | _ =>
      Reader.expect .leftParen
      if ← Reader.accept .rightParen then return []
      else
        let (es, last) ← readList inner steps
        Reader.expect .rightParen
        let last ← if last.isCall then pure last else last.push
        return es ++ [last.expr]

/-- Reads the look-ups and calls that follow an expression; `all` bounds the steps inside
them. -/
def readSuffixes (all : Nat) : Nat → Operand → Reader Operand
  | 0, _ => Reader.refuse .malformed
  | steps + 1, o => do
      let t ← Reader.current
      match t.lexeme with
      | .sign .dot =>
          let o ← o.hold
          Reader.advance
          let key := Operand.constant (.text (← Reader.name))
          readSuffixes all steps (← o.index key)
      | .sign .leftBracket =>
          let o ← o.hold
          let key ← readKey inner
          readSuffixes all steps (← o.index key)
      | .literal (.string _) | .sign .leftBrace | .sign .leftParen =>
          let o ← o.push
          let used := (← get).used
          let es ← readArguments inner all
          Reader.releaseTo used
          readSuffixes all steps ⟨.call o.expr es t.line, .answers⟩
      | _ => return o

/-- Reads a variable or an expression in parentheses, and what follows it. -/
def readPath (steps : Nat) : Reader Operand := do
  let first ←
    if ← Reader.accept .leftParen then do
      let o ← inner true
      Reader.expect .rightParen
      o.enclose
    else do Operand.ofName (← Reader.name)
  readSuffixes inner steps steps first

/-- Reads an expression without joins. -/
def readOperand (steps : Nat) : Reader Operand := do
  match (← Reader.current).lexeme with
  | .literal v =>
      Reader.advance
      return .constant v
  | .sign .leftBrace => readTable inner steps
  | .sign .minus =>
      Reader.advance
      (← (← inner false).settle).negate
  | _ => readPath inner steps

end

/-- Reads an expression, with joins if `joins` says so. -/
def read (steps : Nat) : Nat → Bool → Reader Operand
  | 0, _ => Reader.refuse .tooDeep
  | room + 1, joins => do
      let left ← readOperand (read steps room) steps
      if joins && (← Reader.sees .join) then
        let line := (← Reader.current).line
        Reader.advance
        let left ← left.push
        let right ← read steps room true
        left.join right line
      else return left

end Expr

/-- Makes values as many as the targets that take them, given the number of both and the last
value; missing ones get a register each. -/
def Operand.adjust (targets values : Nat) (last : Operand) : Reader Operand := do
  let last ← if last.isCall then pure last else last.push
  Reader.reserve (targets - values)
  Reader.release (values - targets)
  return last

/-- The variables that are the table or the key of a field that is assigned to. -/
def Target.needs : Target → List String
  | .name _ => []
  | .field base key => [base.bare, key.bare].filterMap fun
      | .name n => some n
      | _ => none

namespace Statement

/-- Reads the names of new local variables; `before` holds those read, the latest first. -/
def readNames : Nat → List String → Reader (List String)
  | 0, _ => Reader.refuse .malformed
  | steps + 1, before => do
      let names := (← Reader.name) :: before
      if Reader.localLimit < (← get).scope.length + names.length then Reader.refuse .malformed
      if ← Reader.accept .comma then readNames steps names else return names

/-- Reads what follows the word that declares local variables. -/
def readDeclaration (steps room : Nat) : Reader Statement := do
  let names ← readNames steps []
  let values ←
    if ← Reader.accept .equals then do
      let (es, last) ← Expr.readList (Expr.read steps room) steps
      let last ← last.adjust names.length (es.length + 1)
      pure (es ++ [last.expr])
    else do
      Reader.reserve names.length
      pure []
  modify fun s => { s with scope := names ++ s.scope }
  return .declare names.reverse values

/-- Reads the rest of an assignment whose targets so far are `before`, the latest first, and
whose last one is `o`.  `needed` holds the variables in these; one that is assigned to as well is
copied first. -/
def readAssignment (steps : Nat) :
    Nat → List Target → List String → Operand → Reader Statement
  | room, before, needed, o => do
      match o.expr.target? with
      | none => Reader.refuse .malformed
      | some target =>
          if ← Reader.accept .comma then
            let needed := target.needs ++ needed
            let next ← Expr.readPath (Expr.read steps room) steps
            let needed ← match next.place, next.expr with
              | .scope, .name n => do
                  if needed.contains n then Reader.reserve 1
                  pure (needed.filter (· ≠ n))
              | _, _ => pure needed
            match room with
            | 0 => Reader.refuse .tooDeep
            | room + 1 => readAssignment steps room (target :: before) needed next
          else
            Reader.expect .equals
            let targets := (target :: before).reverse
            let (es, last) ← Expr.readList (Expr.read steps room) steps
            let last ←
              if es.length + 1 = targets.length then store o last
              else last.adjust targets.length (es.length + 1)
            return .assign targets (es ++ [last.expr]) (← get).line
where
  /-- Brings the last value to where it is assigned from. -/
  store (o last : Operand) : Reader Operand := do
    match o.place with
    | .scope =>
        let last ← last.settle
        match last.place with
        | .constant v => Reader.noteLoaded v
        | _ => pure ()
        return last
    | _ => last.keep

/-- Reads a call or an assignment. -/
def readAction (steps room : Nat) : Reader Statement := do
  let o ← Expr.readPath (Expr.read steps room) steps
  if (← Reader.sees .equals) || (← Reader.sees .comma) then readAssignment steps room [] [] o
  else if o.isCall then return .call o.expr
  else Reader.refuse .malformed

/-- Reads a statement; an empty one is none. -/
def read (steps room : Nat) : Reader (Option Statement) := do
  let s ← match (← Reader.current).lexeme with
    | .sign .semicolon => do
        Reader.advance
        pure none
    | .sign .localWord => do
        Reader.advance
        some <$> readDeclaration steps room
    | _ => some <$> readAction steps room
  modify fun s => { s with used := s.scope.length }
  return s

end Statement

namespace Chunk

/-- Reads the expressions that a chunk answers, and the end of the text. -/
def readAnswers (steps room : Nat) : Reader (List Expr) := do
  let answers ←
    if (← Reader.sees .finish) || (← Reader.sees .semicolon) then pure []
    else do
      let (es, last) ← Expr.readList (Expr.read steps room) steps
      let last ←
        if last.isCall then pure last else if es.isEmpty then last.hold else last.push
      pure (es ++ [last.expr])
  let _ ← Reader.accept .semicolon
  if ← Reader.sees .finish then return answers else Reader.refuse .malformed

/-- Reads statements to the end of the text; `before` holds those read, the latest first. -/
def readStatements (all room : Nat) : Nat → List Statement → Reader Chunk
  | 0, _ => Reader.refuse .malformed
  | steps + 1, before => do
      if ← Reader.sees .finish then return ⟨before.reverse, []⟩
      else
        match room with
        | 0 => Reader.refuse .tooDeep
        | room' + 1 =>
            if ← Reader.accept .returnWord then
              return ⟨before.reverse, ← readAnswers all room'⟩
            else
              match ← Statement.read all room' with
              | some s => readStatements all room steps (s :: before)
              | none => readStatements all room steps before

/-- What a reader makes of all tokens of a text. -/
def readTokens {α : Type} (x : Reader α) (tokens : List Token) : Except Refusal α :=
  match tokens with
  | ⟨.sign .broken, _⟩ :: _ => .error .malformed
  | _ => (x.run ⟨tokens, 1, 0, [], []⟩).map Prod.fst

/-- The chunk that a text forms when `room` levels may be opened: expressions to answer if
possible, else statements. -/
def ofText (room : Nat) (source : String) : Except Refusal Chunk :=
  let tokens := Token.ofText source
  let steps := tokens.length + 1
  let answers : Except Refusal (List Expr) := match room with
    | 0 => .error .tooDeep
    | room + 1 => readTokens (readAnswers steps room) tokens
  match answers with
  | .ok answers => .ok ⟨[], answers⟩
  | .error _ => readTokens (readStatements steps room steps []) tokens

end Chunk

end BuildPlan
