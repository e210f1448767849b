import BuildPlan.Script.Value

/-! # Tokens of the script language

A script is read as a list of tokens, each with the line on which it ends.  The last token is
the end of the text, or the place from which on no token can be read. -/

namespace BuildPlan

/-- The words and signs of the language. -/
inductive Sign where
  | localWord
  | returnWord
  | leftParen
  | rightParen
  | leftBrace
  | rightBrace
  | leftBracket
  | rightBracket
  | semicolon
  | comma
  | dot
  | join
  | equals
  | minus
  /-- A word or sign that no script here can use. -/
  | foreign
  /-- The end of the text. -/
  | finish
  /-- Where no token can be read. -/
  | broken
deriving DecidableEq, Repr

/-- What a token says. -/
inductive Lexeme where
  | sign (m : Sign)
  | name (n : String)
  | literal (v : Value)
deriving DecidableEq, Repr

/-- A token and where it stands. -/
structure Token where
  lexeme : Lexeme
  /-- The line on which it ends. -/
  line : Nat
deriving DecidableEq, Repr

namespace Lexeme

/-- The words with a meaning here. -/
def words : List (String × Lexeme) := [
  ("nil", .literal .nil), ("true", .literal (.boolean true)),
  ("false", .literal (.boolean false)), ("local", .sign .localWord),
  ("return", .sign .returnWord)]

/-- The other words that are no names. -/
def foreignWords : List String := [
  "and", "break", "do", "else", "elseif", "end", "for", "function", "goto", "if", "in", "not",
  "or", "repeat", "then", "until", "while"]

/-- What a word says. -/
def ofWord (word : String) : Lexeme :=
  match words.lookup word with
  | some lexeme => lexeme
  | none => if foreignWords.contains word then .sign .foreign else .name word

/-- The signs of one character. -/
def signs : List (Char × Sign) := [
  ('(', .leftParen), (')', .rightParen), ('\x7b', .leftBrace), ('\x7d', .rightBrace),
  ('[', .leftBracket), (']', .rightBracket), (';', .semicolon), (',', .comma), ('.', .dot),
  ('=', .equals), ('-', .minus)]

end Lexeme

end BuildPlan
