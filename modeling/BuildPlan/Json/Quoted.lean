import BuildPlan.Text.Digit

/-! # Quoted JSON strings

`encode` writes a text between quotes: quotes and backslashes are escaped, the five common
controls have short escapes, the other characters below U+0020 are written `\u00xx`, and all
else stands for itself.  `decode?` is the strict reader: it takes every escape of the format,
with surrogates in pairs only, allows white space around the string and nothing else. -/

namespace BuildPlan.Json.Quoted

/-- The lower-case hexadecimal digit of a number below sixteen. -/
def hexDigit (n : Nat) : Char := Char.ofNat (if n < 10 then 48 + n else 87 + n)

/-- The value of four hexadecimal digits. -/
def hexValue4? (a b c d : Char) : Option Nat :=
  match digitValue? a, digitValue? b, digitValue? c, digitValue? d with
  | some a, some b, some c, some d => some (((a * 16 + b) * 16 + c) * 16 + d)
  | _, _, _, _ => none

/-- How a character is written between quotes. -/
def escape (c : Char) : List Char :=
  if c = '\x22' then ['\\', '\x22']
  else if c = '\\' then ['\\', '\\']
  else if c = '\x08' then ['\\', 'b']
  else if c = '\x0c' then ['\\', 'f']
  else if c = '\n' then ['\\', 'n']
  else if c = '\r' then ['\\', 'r']
  else if c = '\t' then ['\\', 't']
  else if c.toNat < 32 then ['\\', 'u', '0', '0', hexDigit (c.toNat / 16), hexDigit (c.toNat % 16)]
  else [c]

/-- The quoted form of a text. -/
def encode (cs : List Char) : List Char := '\x22' :: (cs.flatMap escape ++ ['\x22'])

/-- The character behind a backslash and one further character. -/
def shortEscape? (c : Char) : Option Char :=
  if c = '\x22' then some '\x22'
  else if c = '\\' then some '\\'
  else if c = '/' then some '/'
  else if c = 'b' then some '\x08'
  else if c = 'f' then some '\x0c'
  else if c = 'n' then some '\n'
  else if c = 'r' then some '\r'
  else if c = 't' then some '\t'
  else none

/-- The upper halves of surrogate pairs. -/
def isHighSurrogate (n : Nat) : Bool := 0xD800 ≤ n && n < 0xDC00

/-- The lower halves of surrogate pairs. -/
def isLowSurrogate (n : Nat) : Bool := 0xDC00 ≤ n && n < 0xE000

/-- Reads up to the closing quote; the answer holds the text and what follows the quote. -/
def readBody : List Char → Option (List Char × List Char)
  | [] => none
  | '\x22' :: rest => some ([], rest)
  | '\\' :: 'u' :: a :: b :: c :: d :: rest =>
      match hexValue4? a b c d with
      | none => none
      | some n =>
          if isHighSurrogate n then
            match rest with
            | '\\' :: 'u' :: e :: f :: g :: h :: rest' =>
                match hexValue4? e f g h with
                | none => none
                | some m =>
                    if isLowSurrogate m then
                      (readBody rest').map fun (cs, r) =>
                        (Char.ofNat (0x10000 + (n - 0xD800) * 1024 + (m - 0xDC00)) :: cs, r)
                    else none
            | _ => none
          else if isLowSurrogate n then none
          else (readBody rest).map fun (cs, r) => (Char.ofNat n :: cs, r)
  | '\\' :: c :: rest =>
      match shortEscape? c with
      | none => none
      | some e => (readBody rest).map fun (cs, r) => (e :: cs, r)
  | c :: rest =>
      if c = '\\' ∨ c.toNat < 32 then none
      else (readBody rest).map fun (cs, r) => (c :: cs, r)

/-- White space between the tokens of the format. -/
def isSpace (c : Char) : Bool := c == ' ' || c == '\n' || c == '\r' || c == '\t'

/-- The text behind a quoted string with white space around it and nothing else. -/
def decode? (cs : List Char) : Option (List Char) :=
  match cs.dropWhile isSpace with
  | '\x22' :: body =>
      match readBody body with
      | some (text, rest) => if rest.all isSpace then some text else none
      | none => none
  | _ => none

end BuildPlan.Json.Quoted
