/-! # UTF-8

Texts as bytes.  `pieces` cuts any bytes into characters and malformed parts, each malformed
part as long as it could still have begun a character.  `decode` takes well-formed bytes only
and tells where the first malformed part stands; `lossy` puts U+FFFD for every such part. -/

namespace BuildPlan

/-- A string of bytes. -/
abbrev Bytes := List UInt8

namespace Utf8

/-- The bytes of a text. -/
def encode (s : String) : Bytes := s.toList.flatMap String.utf8EncodeChar

/-- The bytes that may stand at one place of a character, by their numbers. -/
structure Range where
  first : Nat
  last : Nat

/-- Whether a byte lies in a range. -/
def Range.contains (r : Range) (b : UInt8) : Bool := r.first ≤ b.toNat && b.toNat ≤ r.last

/-- The bytes that go on with a character. -/
def Range.continuation : Range := ⟨0x80, 0xBF⟩

/-- A character that is read in part: the value so far, the number of bytes read, and the
ranges of those that must follow. -/
structure Open where
  value : Nat
  length : Nat
  next : Range
  later : List Range

/-- A part of a string of bytes. -/
inductive Piece where
  /-- A well-formed character. -/
  | char (c : Char)
  /-- Bytes that begin no character, or none together with what follows them. -/
  | bad (length : Nat)
  /-- Bytes at the end that begin a character. -/
  | cut (length : Nat)

/-- What the first byte of a character says: a whole character, the start of one, or nothing. -/
def openWith (b : UInt8) : List Piece × Option Open :=
  let n := b.toNat
  let more : Range := .continuation
  if n < 0x80 then ([.char (Char.ofNat n)], none)
  else if n < 0xC2 then ([.bad 1], none)
  else if n < 0xE0 then ([], some ⟨n % 32, 1, more, []⟩)
  else if n = 0xE0 then ([], some ⟨0, 1, ⟨0xA0, 0xBF⟩, [more]⟩)
  else if n = 0xED then ([], some ⟨13, 1, ⟨0x80, 0x9F⟩, [more]⟩)
  else if n < 0xF0 then ([], some ⟨n % 16, 1, more, [more]⟩)
  else if n = 0xF0 then ([], some ⟨0, 1, ⟨0x90, 0xBF⟩, [more, more]⟩)
  else if n < 0xF4 then ([], some ⟨n % 8, 1, more, [more, more]⟩)
  else if n = 0xF4 then ([], some ⟨4, 1, ⟨0x80, 0x8F⟩, [more, more]⟩)
  else ([.bad 1], none)

/-- What one more byte completes, and what it leaves open. -/
def advance (state : Option Open) (b : UInt8) : List Piece × Option Open :=
  match state with
  | none => openWith b
  | some o =>
      if o.next.contains b then
        let value := o.value * 64 + b.toNat % 64
        match o.later with
        | [] => ([.char (Char.ofNat value)], none)
        | next :: later => ([], some ⟨value, o.length + 1, next, later⟩)
      else
        let (found, state) := openWith b
        (.bad o.length :: found, state)

/-- Adds the pieces that one more byte completes to those found before, the latest first. -/
def collect (found : List Piece × Option Open) (b : UInt8) : List Piece × Option Open :=
  let (more, state) := advance found.2 b
  (more.reverse ++ found.1, state)

/-- The parts of a string of bytes, in order. -/
def pieces (bytes : Bytes) : List Piece :=
  match bytes.foldl collect ([], none) with
  | (found, none) => found.reverse
  | (found, some o) => (.cut o.length :: found).reverse

/-- Where a string of bytes stops being well-formed: the number of good bytes before that
place, and the length of the malformed part unless more bytes could mend it. -/
structure Malformed where
  validUpTo : Nat
  length? : Option Nat
deriving DecidableEq, Repr

/-- The sentence that tells where the bytes go wrong. -/
def Malformed.message : Malformed → String
  | ⟨start, some length⟩ =>
      "invalid utf-8 sequence of " ++ toString length ++ " bytes from index " ++ toString start
  | ⟨start, none⟩ => "incomplete utf-8 byte sequence from index " ++ toString start

/-- The first malformed part of a string of bytes that `start` good bytes precede. -/
def malformed? (start : Nat) : List Piece → Option Malformed
  | [] => none
  | .char c :: rest => malformed? (start + c.utf8Size) rest
  | .bad length :: _ => some ⟨start, some length⟩
  | .cut _ :: _ => some ⟨start, none⟩

/-- The character of a well-formed part. -/
def Piece.char? : Piece → Option Char
  | .char c => some c
  | .bad _ => none
  | .cut _ => none

/-- The text of well-formed bytes. -/
def decode (bytes : Bytes) : Except Malformed String :=
  let found := pieces bytes
  match malformed? 0 found with
  | none => .ok (String.ofList (found.filterMap Piece.char?))
  | some e => .error e

/-- The text of any bytes, with U+FFFD for every malformed part. -/
def lossy (bytes : Bytes) : String :=
  String.ofList ((pieces bytes).map fun p => p.char?.getD '\ufffd')

end Utf8

end BuildPlan
