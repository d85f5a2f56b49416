/-
JSON values.

A string may spell half of a surrogate pair, and such a string is no text; it is kept as a
value without one, so that it can be refused where a text is needed and passed over where
nothing is.  Numbers are kept as they are written, for the same reason.

A number becomes a double in two steps.  Its leading digits, as many as fit into 64 bits,
are one whole number; the other digits count only by their places.  That number is then
multiplied or divided once by a power of ten.  A result out of range is no number.
-/
import TemplateCompiler.Decimal.Reading

namespace TemplateCompiler

namespace Json

/-- A number as it is written. -/
structure Number where
  negative : Bool
  /-- The digits before the point. -/
  whole : List Char
  /-- The digits after the point. -/
  fraction : List Char
  exponent : Option Int
  deriving DecidableEq

/-- A value. -/
inductive Value
  | null
  | bool (b : Bool)
  | number (n : Number)
  /-- The text is absent if the string spells none. -/
  | string (text : Option String)
  | array (items : List Value)
  | object (members : List (Option String × Value))
  deriving Inhabited

namespace Number

/-- Appends digits to a whole number while it stays below `2 ^ 64`, and gives the digits
that are left. -/
def appendDigits (n : Nat) : List Char → Nat × List Char
  | [] => (n, [])
  | c :: rest =>
    let next := 10 * n + (c.toNat - '0'.toNat)
    if next < Nat.pow 2 64 then appendDigits next rest else (n, c :: rest)

/-- The product of a double and a power of ten, if it is in range. -/
def scale (x : Float) (exponent : Int) : Option Float :=
  if exponent < -308 then
    if x == 0 then some x else scale (x / 1e308) (exponent + 308)
  else if exponent < 0 then some (x / Float.ofScientific 1 false exponent.natAbs)
  else if exponent ≤ 308 then
    let product := x * Float.ofScientific 1 false exponent.natAbs
    if product.isInf then none else some product
  else if x == 0 then some x else none
termination_by exponent.natAbs
decreasing_by omega

/-- The double that the number stands for, if it is in range. -/
def toFloat? (n : Number) : Option Float :=
  let whole := appendDigits 0 n.whole
  let digits := appendDigits whole.1 n.fraction
  let places : Int := whole.2.length - (n.fraction.length - digits.2.length : Nat)
  (scale digits.1.toUInt64.toFloat (places + n.exponent.getD 0)).map fun x =>
    if n.negative then -x else x

end Number

end Json

end TemplateCompiler
