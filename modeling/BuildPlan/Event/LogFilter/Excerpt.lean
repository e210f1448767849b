import BuildPlan.Text.Blank

/-! # Excerpts

A rule of a log filter is read sign by sign behind the blanks at its start, but the parts between
the signs are taken from its whole text: a part stands as many bytes behind the begin of the whole
text as its signs stand behind the blanks.  Without such blanks that makes no difference; with
them every part begins too early. -/

namespace BuildPlan

/-- How many bytes the characters of a text take. -/
def byteCount : List Char → Nat
  | [] => 0
  | c :: cs => c.utf8Size + byteCount cs

/-- The rest of a text from a place on, which is counted in bytes; a place inside a character
counts as its end. -/
def dropBytes : Nat → List Char → List Char
  | 0, cs => cs
  | _ + 1, [] => []
  | n + 1, c :: cs => dropBytes (n + 1 - c.utf8Size) cs

/-- The start of a text up to such a place. -/
def takeBytes : Nat → List Char → List Char
  | 0, _ => []
  | _ + 1, [] => []
  | n + 1, c :: cs => c :: takeBytes (n + 1 - c.utf8Size) cs

/-- What is left to read of a text. -/
structure Excerpt where
  /-- The whole text with the blanks at its start. -/
  whole : List Char
  /-- How many bytes were read behind those blanks. -/
  place : Nat
  rest : List Char

namespace Excerpt

/-- A text behind the blanks at its start. -/
def ofText (text : List Char) : Excerpt := ⟨text, 0, text.dropWhile isSpace⟩

/-- The part of the whole text from the place on. -/
def remainder (e : Excerpt) : List Char := dropBytes e.place e.whole

/-- Reads up to the first sign, and takes the part of the whole text for what stands before it. -/
def upTo (e : Excerpt) (isSign : Char → Bool) : List Char × Excerpt :=
  let (before, rest) := e.rest.span fun c => !isSign c
  (takeBytes (byteCount before) e.remainder, ⟨e.whole, e.place + byteCount before, rest⟩)

/-- Reads a sign, which is one byte long. -/
def next (e : Excerpt) : Excerpt := ⟨e.whole, e.place + 1, e.rest.tail⟩

end Excerpt

end BuildPlan
