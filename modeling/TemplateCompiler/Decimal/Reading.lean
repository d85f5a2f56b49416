/-
Reading decimal numbers.

A number is an optional sign, digits with at most one point among them, at least one
digit in all, and an optional exponent.  Its value is the double nearest to it.  The
words for infinity and for the undefined value are read in any case of letters.
-/
import TemplateCompiler.Text.Search

namespace TemplateCompiler

namespace Decimal

/-- The value of ASCII digits. -/
def ofDigits (digits : List Char) : Nat :=
  digits.foldl (fun n c => 10 * n + (c.toNat - '0'.toNat)) 0

/-- The sign in front, which is not negative if there is none, and what follows it. -/
def splitSign : List Char → Bool × List Char
  | '-' :: rest => (true, rest)
  | '+' :: rest => (false, rest)
  | rest => (false, rest)

/-- An exponent with its mark, or nothing at all. -/
def readExponent? : List Char → Option Int
  | [] => some 0
  | mark :: rest =>
    let (negative, digits) := splitSign rest
    if (mark == 'e' || mark == 'E') && !digits.isEmpty && digits.all Char.isDigit then
      some (if negative then -(ofDigits digits : Int) else ofDigits digits)
    else none

/-- The double nearest to `significand * 10 ^ exponent`.  Exponents that are out of every
double's reach are cut off before they are raised. -/
def toFloat (significand : Nat) (exponent : Int) : Float :=
  let digits := (Nat.toDigits 10 significand).length
  if significand = 0 ∨ exponent + digits < -400 then 0
  else if 400 < exponent + digits then 1.0 / 0.0
  else Float.ofScientific significand (exponent < 0) exponent.natAbs

/-- A number without its sign. -/
def readUnsigned? (cs : List Char) : Option Float :=
  let word := Text.lowerAsciiChars cs
  if word = "inf".toList ∨ word = "infinity".toList then some (1.0 / 0.0)
  else if word = "nan".toList then some (0.0 / 0.0)
  else
    let whole := cs.takeWhile Char.isDigit
    let rest := cs.dropWhile Char.isDigit
    let (fraction, rest) :=
      match rest with
      | '.' :: rest => (rest.takeWhile Char.isDigit, rest.dropWhile Char.isDigit)
      | rest => ([], rest)
    if whole.isEmpty && fraction.isEmpty then none
    else
      (readExponent? rest).map fun exponent =>
        toFloat (ofDigits (whole ++ fraction)) (exponent - fraction.length)

/-- The number that the characters spell, if they spell one. -/
def read? (cs : List Char) : Option Float :=
  let (negative, rest) := splitSign cs
  (readUnsigned? rest).map fun x => if negative then -x else x

end Decimal

end TemplateCompiler
