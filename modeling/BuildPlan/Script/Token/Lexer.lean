import BuildPlan.Script.Numeral
import BuildPlan.Script.Token

/-! # Reading tokens

`Token.ofText` cuts the text of a script into tokens, as far as it can.  Ends of lines are made
alike first (`unifyLines`), so one line feed ends each line from then on. -/

namespace BuildPlan.Token

/-- The text with a line feed for every end of a line: a line feed, a carriage return, or both
in either order. -/
def unifyLines : List Char → List Char
  | [] => []
  | '\r' :: '\n' :: cs => '\n' :: unifyLines cs
  | '\n' :: '\r' :: cs => '\n' :: unifyLines cs
  | '\r' :: cs => '\n' :: unifyLines cs
  | c :: cs => c :: unifyLines cs

/-- Whether a character can begin a name. -/
def beginsName (c : Char) : Bool := c.isAlpha || c = '_'

/-- Whether a character can stand in a name. -/
def inName (c : Char) : Bool := c.isAlphanum || c = '_'

/-- The number of line feeds. -/
def lines (cs : List Char) : Nat := cs.count '\n'

/-! ### Long brackets -/

/-- The number of equals signs between two opening brackets, and what follows the second. -/
def openLong? : List Char → Option (Nat × List Char)
  | '[' :: cs =>
      match cs.dropWhile (· = '=') with
      | '[' :: rest => some ((cs.takeWhile (· = '=')).length, rest)
      | _ => none
  | _ => none

/-- The brackets that close a long bracket of a level. -/
def closeLong (level : Nat) : List Char := ']' :: (List.replicate level '=' ++ [']'])

/-- Reads up to the closing brackets; `before` holds what was read, the latest first. -/
def readLong (close : List Char) (before : List Char) : List Char → Option (List Char × List Char)
  | [] => none
  | c :: cs =>
      if close.isPrefixOf (c :: cs) then some (before.reverse, (c :: cs).drop close.length)
      else readLong close (c :: before) cs

/-- Reads the content of a long bracket and its closing brackets. -/
def long? (level : Nat) (cs : List Char) : Option (List Char × List Char) :=
  readLong (closeLong level) [] cs

/-- The content of a long bracket without a line feed at its start. -/
def longContent : List Char → List Char
  | '\n' :: cs => cs
  | cs => cs

/-! ### Quoted strings -/

/-- The bytes of a code point of up to 31 bits. -/
def codePointBytes (n : Nat) : Bytes :=
  let more (shift : Nat) : UInt8 := (0x80 + (n >>> shift) % 64).toUInt8
  if n < 0x80 then [n.toUInt8]
  else if n < 0x800 then [(0xC0 + (n >>> 6)).toUInt8, more 0]
  else if n < 0x10000 then [(0xE0 + (n >>> 12)).toUInt8, more 6, more 0]
  else if n < 0x200000 then [(0xF0 + (n >>> 18)).toUInt8, more 12, more 6, more 0]
  else if n < 0x4000000 then [(0xF8 + (n >>> 24)).toUInt8, more 18, more 12, more 6, more 0]
  else [(0xFC + (n >>> 30)).toUInt8, more 24, more 18, more 12, more 6, more 0]

/-- The byte behind an escape of one character. -/
def simpleEscape? (c : Char) : Option UInt8 :=
  match c with
  | 'a' => some 7
  | 'b' => some 8
  | 't' => some 9
  | 'n' => some 10
  | 'v' => some 11
  | 'f' => some 12
  | 'r' => some 13
  | '\n' => some 10
  | '\\' => some 92
  | '\x22' => some 34
  | '\x27' => some 39
  | _ => none

/-- What an escape stands for, the line feeds in it and what follows it, given the text behind
the backslash. -/
def escape? : List Char → Option (Bytes × Nat × List Char)
  | 'x' :: a :: b :: cs =>
      match digitValue? a, digitValue? b with
      | some a, some b => some ([(a * 16 + b).toUInt8], 0, cs)
      | _, _ => none
  | 'z' :: cs => some ([], lines (cs.takeWhile Numeral.isBlank), cs.dropWhile Numeral.isBlank)
  | 'u' :: '\x7b' :: cs =>
      let ds := cs.takeWhile isHexDigit
      let n := ofDigits 16 ds
      match cs.dropWhile isHexDigit with
      | '\x7d' :: rest =>
          if ds.isEmpty || 0x80000000 ≤ n then none else some (codePointBytes n, 0, rest)
      | _ => none
  | c :: cs =>
      if c.isDigit then
        let ds := ((c :: cs).take 3).takeWhile Char.isDigit
        let n := ofDigits 10 ds
        if 255 < n then none else some ([n.toUInt8], 0, (c :: cs).drop ds.length)
      else (simpleEscape? c).map ([·], lines [c], cs)
  | [] => none

/-- Reads a string up to its closing quote, counting line feeds; `before` holds the bytes read,
the latest first.  Every step reads a character, so the length of the text bounds the steps. -/
def readQuoted (quote : Char) : Nat → Nat → Bytes → List Char → Option (Bytes × Nat × List Char)
  | 0, _, _, _ => none
  | _, _, _, [] => none
  | steps + 1, count, before, c :: cs =>
      if c = quote then some (before.reverse, count, cs)
      else if c = '\n' then none
      else if c = '\\' then
        match escape? cs with
        | some (bytes, more, rest) =>
            readQuoted quote steps (count + more) (bytes.reverse ++ before) rest
        | none => none
      else readQuoted quote steps count ((String.utf8EncodeChar c).reverse ++ before) cs

/-! ### Tokens -/

/-- What stands at the start of a text, with the number of line feeds in it: something to skip,
or a token. -/
inductive Item where
  | skip (lines : Nat) (rest : List Char)
  | token (lexeme : Lexeme) (lines : Nat) (rest : List Char)

/-- Reads a comment behind its two signs. -/
def comment? (cs : List Char) : Option Item :=
  match openLong? cs with
  | some (level, inside) =>
      (long? level inside).map fun (content, rest) => .skip (lines content) rest
  | none => some (.skip 0 (cs.dropWhile (· ≠ '\n')))

/-- Reads an opening bracket, or a string in long brackets. -/
def bracket? (cs : List Char) : Option Item :=
  match openLong? ('[' :: cs) with
  | some (level, inside) =>
      (long? level inside).map fun (content, rest) =>
        .token (.literal (.text (String.ofList (longContent content)))) (lines content) rest
  | none =>
      match cs with
      | '=' :: _ => none
      | _ => some (.token (.sign .leftBracket) 0 cs)

/-- Reads a numeral. -/
def number? (cs : List Char) : Option Item :=
  (Numeral.read? cs).map fun (v, rest) => .token (.literal v) 0 rest

/-- Reads what stands at the start of a text that begins with `c` and has at most `steps` further
characters. -/
def item? (steps : Nat) (c : Char) (cs : List Char) : Option Item :=
  if Numeral.isBlank c then some (.skip (lines [c]) cs)
  else if beginsName c then
    let word := String.ofList (c :: cs.takeWhile inName)
    some (.token (Lexeme.ofWord word) 0 (cs.dropWhile inName))
  else if c.isDigit then number? (c :: cs)
  else if c = '\x22' || c = '\x27' then
    (readQuoted c (steps + 1) 0 [] cs).map fun (bytes, count, rest) =>
      .token (.literal (.string bytes)) count rest
  else
    match c, cs with
    | '-', '-' :: rest => comment? rest
    | '[', _ => bracket? cs
    | '=', '=' :: rest => some (.token (.sign .foreign) 0 rest)
    | '.', '.' :: '.' :: rest => some (.token (.sign .foreign) 0 rest)
    | '.', '.' :: rest => some (.token (.sign .join) 0 rest)
    | '.', d :: _ => if d.isDigit then number? (c :: cs) else some (.token (.sign .dot) 0 cs)
    | _, _ => some (.token (.sign ((Lexeme.signs.lookup c).getD .foreign)) 0 cs)

/-- Reads all tokens, given the line on which the text begins and the tokens before it, the latest
first.  Every step reads a character, so the length of the text bounds the steps. -/
def readAll : Nat → Nat → List Token → List Char → List Token
  | _, line, before, [] => (⟨.sign .finish, line⟩ :: before).reverse
  | 0, line, before, _ => (⟨.sign .broken, line⟩ :: before).reverse
  | steps + 1, line, before, c :: cs =>
      match item? steps c cs with
      | none => (⟨.sign .broken, line⟩ :: before).reverse
      | some (.skip count rest) => readAll steps (line + count) before rest
      | some (.token lexeme count rest) =>
          readAll steps (line + count) (⟨lexeme, line + count⟩ :: before) rest

/-- The tokens of a text, up to its end or to the first place where there is none. -/
def ofText (source : String) : List Token :=
  let cs := unifyLines source.toList
  readAll (cs.length + 1) 1 [] cs

end BuildPlan.Token
