/-
Sets of characters given by ranges of code points.

A property of Unicode is data, so each is a list of closed ranges in ascending order,
and a character has the property when its code point lies in one of them.
-/
namespace TemplateCompiler

/-- Closed ranges of code points, in ascending order. -/
abbrev CodeRanges := List (Nat × Nat)

/-- The code point of `c` lies in one of the ranges. -/
def CodeRanges.has (ranges : CodeRanges) (c : Char) : Bool :=
  ranges.any fun range => range.1 ≤ c.toNat && c.toNat ≤ range.2

end TemplateCompiler
