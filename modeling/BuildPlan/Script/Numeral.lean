import BuildPlan.Script.Value
import BuildPlan.Text.Digit

/-! # Numerals

The numbers of the script language as they are written: decimal or hexadecimal, with or without
a fraction and an exponent.  A decimal integer that does not fit into 64 bits is a floating
point number, a hexadecimal one wraps around. -/

namespace BuildPlan.Numeral

/-- The integer of 64 bits that is congruent to a number. -/
def wrap (i : Int) : Int := Int.bmod i 0x10000000000000000

/-- The greatest integer of 64 bits. -/
def maxInteger : Int := 0x7FFFFFFFFFFFFFFF

/-- The digits from the first one on that is not zero. -/
def significant (ds : List Char) : List Char := ds.dropWhile (· = '0')

/-- How many digits an exponent may have; no numeral has digits enough to make up for a longer
one. -/
def exponentDigits : Nat := 20

/-- The exponent behind its mark: an optional sign and digits to the end. -/
def exponent? (cs : List Char) : Option Int :=
  let (negative, ds) := match cs with
    | '-' :: ds => (true, ds)
    | '+' :: ds => (false, ds)
    | ds => (false, ds)
  if ds.isEmpty || !ds.all Char.isDigit then none
  else
    let ds := significant ds
    let n := if exponentDigits < ds.length then Nat.pow 10 exponentDigits else ofDigits 10 ds
    some (if negative then -(n : Int) else n)

/-- The parts of a numeral: digits before and after the point, and the exponent. -/
structure Parts where
  whole : List Char
  fraction : List Char
  /-- Whether there is a point. -/
  point : Bool
  exponent : Option Int

/-- Cuts a numeral without its base mark into its parts. -/
def parts? (isDigit : Char → Bool) (mark : Char) (cs : List Char) : Option Parts :=
  let whole := cs.takeWhile isDigit
  let rest := cs.dropWhile isDigit
  let (point, fraction, rest) := match rest with
    | '.' :: rest => (true, rest.takeWhile isDigit, rest.dropWhile isDigit)
    | rest => (false, [], rest)
  if whole.isEmpty && fraction.isEmpty then none
  else
    match rest with
    | [] => some ⟨whole, fraction, point, none⟩
    | c :: rest =>
        if c.toLower = mark then
          (exponent? rest).map fun e => ⟨whole, fraction, point, some e⟩
        else none

/-- The integer of a decimal numeral, if it fits into 64 bits. -/
def decimalInteger? (ds : List Char) : Option Int :=
  let ds := significant ds
  if 19 < ds.length then none
  else
    let i : Int := ofDigits 10 ds
    if i ≤ maxInteger then some i else none

/-- The integer of a hexadecimal numeral, on which the last sixteen digits decide. -/
def hexadecimalInteger (ds : List Char) : Int := wrap (ofDigits 16 (ds.drop (ds.length - 16)))

/-- How many digits decide on a floating point number.  A number half way between two of the
format has fewer, so of the digits behind them it counts only whether all are zeros. -/
def digitLimit : Nat := 800

/-- The digits that decide on a floating point number, and how many places follow them. -/
def deciding (ds : List Char) : List Char × Int :=
  let ds := significant ds
  let rest := ds.drop digitLimit
  if rest.all (· = '0') then (ds.take digitLimit, rest.length)
  else (ds.take digitLimit ++ ['1'], rest.length - 1)

/-- The floating point number of a decimal numeral. -/
def decimalNumber (whole fraction : List Char) (exponent : Int) : Binary64 :=
  let (ds, places) := deciding (whole ++ fraction)
  .ofDecimal false (ofDigits 10 ds) (exponent + places - fraction.length)

/-- The floating point number of a hexadecimal numeral. -/
def hexadecimalNumber (whole fraction : List Char) (exponent : Int) : Binary64 :=
  let (ds, places) := deciding (whole ++ fraction)
  .ofBinary false (ofDigits 16 ds) (exponent + 4 * (places - fraction.length))

/-- The value of a numeral, if it is well-formed. -/
def value? (cs : List Char) : Option Value :=
  match cs with
  | '0' :: 'x' :: rest | '0' :: 'X' :: rest =>
      (parts? isHexDigit 'p' rest).map fun p =>
        if !p.point && p.exponent.isNone then .integer (hexadecimalInteger p.whole)
        else .number (hexadecimalNumber p.whole p.fraction (p.exponent.getD 0))
  | _ =>
      (parts? Char.isDigit 'e' cs).map fun p =>
        match if p.point || p.exponent.isSome then none else decimalInteger? p.whole with
        | some i => .integer i
        | none => .number (decimalNumber p.whole p.fraction (p.exponent.getD 0))

/-- Takes as many characters as may belong to a numeral, a sign only behind an exponent mark. -/
def span (mark : Char) : List Char → List Char × List Char
  | [] => ([], [])
  | c :: cs =>
      if c.toLower = mark then
        match cs with
        | '+' :: cs => let (taken, rest) := span mark cs; (c :: '+' :: taken, rest)
        | '-' :: cs => let (taken, rest) := span mark cs; (c :: '-' :: taken, rest)
        | cs => let (taken, rest) := span mark cs; (c :: taken, rest)
      else if isHexDigit c || c = '.' then let (taken, rest) := span mark cs; (c :: taken, rest)
      else ([], c :: cs)

/-- Reads the numeral at the start of a text; no letter may follow it. -/
def read? (cs : List Char) : Option (Value × List Char) :=
  let (taken, rest) := match cs with
    | '0' :: 'x' :: cs => let (taken, rest) := span 'p' cs; ('0' :: 'x' :: taken, rest)
    | '0' :: 'X' :: cs => let (taken, rest) := span 'p' cs; ('0' :: 'x' :: taken, rest)
    | cs => span 'e' cs
  match rest with
  | c :: _ => if c.isAlpha || c = '_' then none else (value? taken).map (·, rest)
  | [] => (value? taken).map (·, rest)

/-- Whether a character may separate numbers and words. -/
def isBlank (c : Char) : Bool := c = ' ' || ('\t' ≤ c && c ≤ '\r')

/-- A text without the blanks around it. -/
def trim (cs : List Char) : List Char :=
  ((cs.dropWhile isBlank).reverse.dropWhile isBlank).reverse

/-- The number with the other sign. -/
def negate? : Value → Option Value
  | .integer i => some (.integer (wrap (-i)))
  | .number x => some (.number x.neg)
  | _ => none

/-- The number that a whole text stands for: a numeral with an optional sign, and blanks around
them. -/
def ofText? (cs : List Char) : Option Value :=
  match trim cs with
  | '-' :: cs => (value? cs).bind negate?
  | '+' :: cs => value? cs
  | cs => value? cs

/-- The number that a value stands for: a number itself, or a string that holds one. -/
def ofValue? : Value → Option Value
  | .integer i => some (.integer i)
  | .number x => some (.number x)
  | .string bytes =>
      match Utf8.decode bytes with
      | .ok text => ofText? text.toList
      | .error _ => none
  | _ => none

end BuildPlan.Numeral
