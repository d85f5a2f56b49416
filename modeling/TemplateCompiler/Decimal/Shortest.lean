/-
The shortest decimal text of a floating-point number.

A finite double is a whole number `m` times a power of two.  The reals that round to it
form an interval around it, whose ends belong to it when `m` is even.  Among the decimal
numbers in that interval those with the fewest digits are wanted, and of these the one
nearest to the double; of two equally near ones the larger.

The search goes over the number of digits.  With `n` digits the decimal numbers of the
right size lie on a grid, and if any point of the grid lies in the interval, then so does
one of the two neighbours of the double on it.  So two points are tried for every `n`,
in exact arithmetic on natural numbers.

The text is positional, whatever the size of the number, and has a fraction only if the
number is not whole.
-/
namespace TemplateCompiler

/-- A positive decimal number: `coefficient` times ten to the power `exponent`. -/
structure Decimal where
  coefficient : Nat
  exponent : Int
  deriving DecidableEq

namespace Decimal

/-- The number of decimal digits of a natural number. -/
def digitCount (n : Nat) : Nat := (Nat.toDigits 10 n).length

/-- A positive fraction with the ends of the interval of reals that round to it, all over
one denominator. -/
structure Rounding where
  value : Nat
  low : Nat
  high : Nat
  denominator : Nat
  /-- The ends round to the value too. -/
  closed : Bool

namespace Rounding

/-- The interval of the double `m * 2 ^ (q - 1074)`, where `isStep` says that the
doubles below it lie closer together than those above. -/
def ofParts (m q : Nat) (isStep : Bool) : Rounding :=
  { value := 4 * m * Nat.pow 2 q
    low := (if isStep then 4 * m - 1 else 4 * m - 2) * Nat.pow 2 q
    high := (4 * m + 2) * Nat.pow 2 q
    denominator := 4 * Nat.pow 2 1074
    closed := m % 2 == 0 }

/-- The fraction `n / (denominator * 10 ^ places)` rounds to the value, where a negative
number of places multiplies by powers of ten instead. -/
def admits (r : Rounding) (n : Nat) (exponent : Int) : Bool :=
  let scaled := n * r.denominator * Nat.pow 10 exponent.toNat
  let unit := Nat.pow 10 (-exponent).toNat
  if r.closed then r.low * unit ≤ scaled && scaled ≤ r.high * unit
  else r.low * unit < scaled && scaled < r.high * unit

/-- The exponent of ten of the first digit before the point would be one less: the value
is below ten to this power and not below the next lower one. -/
def magnitude (r : Rounding) : Int :=
  if r.denominator ≤ r.value then digitCount (r.value / r.denominator)
  else 1 - (digitCount ((r.denominator - 1) / r.value) : Int)

/-- The nearer of the two neighbours of the value on the grid of one exponent, among
those that round to the value. -/
def nearest? (r : Rounding) (exponent : Int) : Option Decimal :=
  let scaledValue := r.value * Nat.pow 10 (-exponent).toNat
  let unit := r.denominator * Nat.pow 10 exponent.toNat
  let below := scaledValue / unit
  let above := below + 1
  let nearAbove := unit ≤ 2 * (scaledValue % unit)
  match r.admits below exponent, r.admits above exponent with
  | true, true => some ⟨if nearAbove then above else below, exponent⟩
  | true, false => some ⟨below, exponent⟩
  | false, true => some ⟨above, exponent⟩
  | false, false => none

/-- The decimal number of fewest digits, searched from `digits` digits on. -/
def shortestFrom (r : Rounding) (digits : Nat) : Nat → Decimal
  | 0 => ⟨0, 0⟩
  | tries + 1 =>
    match r.nearest? (r.magnitude - digits) with
    | some decimal => decimal
    | none => r.shortestFrom (digits + 1) tries

/-- The decimal number of fewest digits; seventeen are enough for every double. -/
def shortest (r : Rounding) : Decimal := r.shortestFrom 1 17

end Rounding

/-- Positional text, with as many zeros as it takes and no fraction that is zero. -/
def positional (d : Decimal) : List Char :=
  let digits := Nat.toDigits 10 d.coefficient
  if 0 ≤ d.exponent then digits ++ List.replicate d.exponent.toNat '0'
  else
    let places := (-d.exponent).toNat
    let padded := List.replicate (places + 1 - digits.length) '0' ++ digits
    let whole := padded.take (padded.length - places)
    let fraction := (padded.drop (padded.length - places)).reverse.dropWhile (· == '0')
    if fraction.isEmpty then whole else whole ++ '.' :: fraction.reverse

end Decimal

/-- The shortest positional text that reads back as the number. -/
def shortestText (x : Float) : String :=
  let bits := x.toBits.toNat
  let sign := if bits / Nat.pow 2 63 = 1 then "-" else ""
  let exponent := bits / Nat.pow 2 52 % Nat.pow 2 11
  let fraction := bits % Nat.pow 2 52
  if exponent = 2047 then if fraction = 0 then sign ++ "inf" else "NaN"
  else if exponent = 0 ∧ fraction = 0 then sign ++ "0"
  else
    let rounding :=
      if exponent = 0 then Decimal.Rounding.ofParts fraction 0 false
      else .ofParts (fraction + Nat.pow 2 52) (exponent - 1) (fraction = 0 ∧ 1 < exponent)
    sign ++ String.ofList rounding.shortest.positional

end TemplateCompiler
