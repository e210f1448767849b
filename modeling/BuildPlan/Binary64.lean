/-! # Numbers in binary floating point

The numbers of the 64-bit format with a 53-bit significand, held exactly: a magnitude is
`mantissa * 2 ^ exponent`.  `ofRatio` rounds a fraction to the nearest of them, a tie to the
even one; `text` writes a number with at most fourteen significant digits. -/

namespace BuildPlan

/-- The nearest whole number to `num / den`, a tie going to the even one. -/
def roundDiv (num den : Nat) : Nat :=
  let q := num / den
  let r := num % den
  if 2 * r < den then q
  else if den < 2 * r then q + 1
  else q + q % 2

/-- A number of the 64-bit format.  The functions here make finite ones in one form each: the
mantissa lies below `2 ^ 53`, and below `2 ^ 52` only with the least exponent. -/
inductive Binary64 where
  | finite (negative : Bool) (mantissa : Nat) (exponent : Int)
  | infinite (negative : Bool)
  /-- No number; it has a sign all the same. -/
  | nan (negative : Bool)
deriving DecidableEq, Repr

namespace Binary64

/-- The least exponent of a mantissa. -/
def minExponent : Int := -1074

/-- The greatest exponent of a mantissa. -/
def maxExponent : Int := 971

/-- The greatest mantissa, of 53 bits. -/
def maxMantissa : Nat := 0x1FFFFFFFFFFFFF

/-- Zero with a sign. -/
def zero (negative : Bool) : Binary64 := .finite negative 0 minExponent

/-- The fraction `num / den * 2 ^ e`, with whole numerator and denominator. -/
def scaleTwo (num den : Nat) (e : Int) : Nat × Nat :=
  if 0 ≤ e then (num <<< e.toNat, den) else (num, den <<< (-e).toNat)

/-- The fraction `num / den * 10 ^ e`, with whole numerator and denominator. -/
def scaleTen (num den : Nat) (e : Int) : Nat × Nat :=
  if 0 ≤ e then (num * Nat.pow 10 e.toNat, den) else (num, den * Nat.pow 10 (-e).toNat)

/-- The exponent of the greatest power of two that is at most `num / den`. -/
def binaryOrder (num den : Nat) : Int :=
  let e : Int := (num.log2 : Int) - den.log2
  let (n, d) := scaleTwo num den (-e)
  if d ≤ n then e else e - 1

/-- The number nearest to `num / den`, for a positive denominator. -/
def ofRatio (negative : Bool) (num den : Nat) : Binary64 :=
  if num = 0 then zero negative
  else
    let e := max (binaryOrder num den - 52) minExponent
    let (n, d) := scaleTwo num den (-e)
    let m := roundDiv n d
    let (m, e) := if m = maxMantissa + 1 then (m / 2, e + 1) else (m, e)
    if maxExponent < e then .infinite negative else .finite negative m e

/-- The number nearest to `mantissa * 10 ^ exponent`; far outside the range of the format the
power is not computed. -/
def ofDecimal (negative : Bool) (mantissa : Nat) (exponent : Int) : Binary64 :=
  let order := exponent + (Nat.toDigits 10 mantissa).length
  if mantissa = 0 ∨ order < -400 then zero negative
  else if 400 < order then .infinite negative
  else
    let (n, d) := scaleTen mantissa 1 exponent
    ofRatio negative n d

/-- The number nearest to `mantissa * 2 ^ exponent`; far outside the range of the format the
power is not computed. -/
def ofBinary (negative : Bool) (mantissa : Nat) (exponent : Int) : Binary64 :=
  let order := exponent + mantissa.log2
  if mantissa = 0 ∨ order < -1200 then zero negative
  else if 1200 < order then .infinite negative
  else
    let (n, d) := scaleTwo mantissa 1 exponent
    ofRatio negative n d

/-- The number with the other sign. -/
def neg : Binary64 → Binary64
  | .finite negative m e => .finite (!negative) m e
  | .infinite negative => .infinite (!negative)
  | .nan negative => .nan (!negative)

/-- The whole number of this value, if it is one. -/
def toInt? : Binary64 → Option Int
  | .finite negative m e =>
      let (n, d) := scaleTwo m 1 e
      if n % d = 0 then some (if negative then -((n / d : Nat) : Int) else (n / d : Nat)) else none
  | _ => none

/-! ### Text -/

/-- How many significant digits are written at most. -/
def textDigits : Nat := 14

/-- The exponent of the greatest power of ten that is at most `num / den`, for a fraction of
the magnitude of a finite number. -/
def decimalOrder (num den : Nat) : Int :=
  ((Nat.toDigits 10 (num * Nat.pow 10 400 / den)).length : Int) - 401

/-- The significant digits of a positive fraction and the decimal order of the first. -/
def digits (num den : Nat) : List Char × Int :=
  let x := decimalOrder num den
  let (n, d) := scaleTen num den ((textDigits : Int) - 1 - x)
  let m := roundDiv n d
  let (m, x) := if m = Nat.pow 10 textDigits then (m / 10, x + 1) else (m, x)
  (Nat.toDigits 10 m, x)

/-- The digits without the zeros at their end. -/
def trimZeros (ds : List Char) : List Char := (ds.reverse.dropWhile (· = '0')).reverse

/-- The decimal point and the digits behind it, if there are any. -/
def fraction (ds : List Char) : List Char := if ds.isEmpty then [] else '.' :: ds

/-- The text of a positive fraction: positional while the order of the first digit is from -4
to one below the number of digits, else with an exponent of at least two digits. -/
def magnitudeText (num den : Nat) : List Char :=
  let (ds, x) := digits num den
  let ds := trimZeros ds
  if x < -4 ∨ (textDigits : Int) ≤ x then
    let exponent := Nat.toDigits 10 x.natAbs
    ds.take 1 ++ fraction (ds.drop 1) ++ ['e', if x < 0 then '-' else '+']
      ++ List.replicate (2 - exponent.length) '0' ++ exponent
  else if x < 0 then
    '0' :: fraction (List.replicate ((-x).toNat - 1) '0' ++ ds)
  else
    let whole := x.toNat + 1
    ds.take whole ++ List.replicate (whole - ds.length) '0' ++ fraction (ds.drop whole)

/-- Whether a text consists of digits alone. -/
def allDigits (cs : List Char) : Bool := cs.all Char.isDigit

/-- The text of a number; one that would look like a whole number ends in `.0`. -/
def text : Binary64 → String
  | .finite negative m e =>
      let (n, d) := scaleTwo m 1 e
      let body := if m = 0 then ['0'] else magnitudeText n d
      let body := if allDigits body then body ++ ['.', '0'] else body
      String.ofList (if negative then '-' :: body else body)
  | .infinite negative => if negative then "-inf" else "inf"
  | .nan negative => if negative then "-nan" else "nan"

example : (ofDecimal false 1 (-1)).text = "0.1" := by decide +kernel
example : (ofDecimal false 1 16).text = "1e+16" := by decide +kernel
example : (ofDecimal false 999999999999999 (-1)).text = "1e+14" := by decide +kernel
example : (ofDecimal false 5 (-324)).text = "4.9406564584125e-324" := by decide +kernel
example : (zero true).text = "-0.0" := by decide +kernel

end Binary64

end BuildPlan
