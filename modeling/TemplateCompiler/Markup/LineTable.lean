/-
Line tables: the starts of lines in words of 32 bits.

A table is filled in one pass over a text, and the line of an offset is found by halving it.  Two
numbers are cut down to words without a look at their size: an offset when it is put into the
table, and the number of a line that has been found.  All else is watched.  A difference below
zero stops the work, and so do a sum that is no word and a position outside the table.
-/
import TemplateCompiler.Markup.Position

namespace TemplateCompiler

namespace Word

/-- The sum of two words, if it is one. -/
def add? (x y : UInt32) : Option UInt32 :=
  if x.toNat + y.toNat < UInt32.size then some (x + y) else none

/-- The difference of two words, if it is one. -/
def sub? (x y : UInt32) : Option UInt32 := if y ≤ x then some (x - y) else none

end Word

/-- The offsets at which the lines of a text begin, in words. -/
structure LineTable where
  starts : Array UInt32

namespace LineTable

/-- Puts the starts of the lines that begin in `cs` into the table, where `cs` begins at
`offset`. -/
def fill (starts : Array UInt32) (offset : Nat) : List Char → Array UInt32
  | [] => starts
  | c :: rest =>
    let starts := if c == '\n' then starts.push (UInt32.ofNat (offset + 1)) else starts
    fill starts (offset + c.utf8Size) rest

/-- The lines of a text. -/
def ofText (text : String) : LineTable := ⟨fill #[0] 0 text.toList⟩

/-- The position from which on `p` does not hold, where it holds of the entries before `low` and
not of those from `high` on. -/
def bisect {α : Type} (p : α → Bool) (entries : Array α) (low high : Nat)
    (hhigh : high ≤ entries.size) : Nat :=
  if h : low < high then
    let middle := low + (high - low) / 2
    if p entries[middle] then bisect p entries (middle + 1) high hhigh
    else bisect p entries low middle (by omega)
  else low
termination_by high - low

/-- The line and column of an offset, unless the work stops. -/
def lineCol? (table : LineTable) (offset : UInt32) : Option LineCol := do
  let line := bisect (fun start => decide (start ≤ offset)) table.starts 0 table.starts.size
    (Nat.le_refl _) - 1
  let number ← Word.add? (UInt32.ofNat line) 1
  let start ← table.starts[line]?
  let width ← Word.sub? offset start
  let col ← Word.add? width 1
  return ⟨number.toNat, col.toNat⟩

end LineTable

end TemplateCompiler
