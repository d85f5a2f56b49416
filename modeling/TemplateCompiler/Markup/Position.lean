/-
Places in a source text.

Offsets count bytes of the UTF-8 form, so a span is a half-open range of bytes.  People
count lines and columns from one; lines end at a line feed and nowhere else, and columns
are bytes too.  A line index is the list of the offsets at which lines begin.  It starts
with 0 and ascends, so the line of an offset is found by counting the starts up to it,
and an offset past the end of the text lies on the last line.
-/
namespace TemplateCompiler

/-- The number of bytes of the characters in UTF-8. -/
def byteLength : List Char → Nat
  | [] => 0
  | c :: rest => c.utf8Size + byteLength rest

/-- A half-open range of bytes. -/
structure Span where
  /-- The offset of the first byte. -/
  start : Nat
  /-- The offset after the last byte. -/
  stop : Nat
  deriving DecidableEq, Inhabited

namespace Span

/-- The span of a node that stands in no source. -/
def detached : Span := ⟨0, 0⟩

/-- The number of bytes in the span. -/
def length (s : Span) : Nat := s.stop - s.start

/-- No byte lies in the span. -/
def isEmpty (s : Span) : Bool := s.start == s.stop

end Span

@[simp] theorem byteLength_append (cs ds : List Char) :
    byteLength (cs ++ ds) = byteLength cs + byteLength ds := by
  induction cs with
  | nil => simp [byteLength]
  | cons c rest ih =>
    simp only [List.cons_append, byteLength, ih]
    omega

/-- A line and a column, both counted from one. -/
structure LineCol where
  line : Nat
  col : Nat
  deriving DecidableEq, Inhabited

/-- The offsets at which the lines of a text begin. -/
structure LineIndex where
  starts : List Nat

namespace LineIndex

/-- The starts of the lines that begin after `offset`, which is where `cs` begins. -/
def startsAfter (offset : Nat) : List Char → List Nat
  | [] => []
  | c :: rest =>
    let next := offset + c.utf8Size
    if c == '\n' then next :: startsAfter next rest else startsAfter next rest

/-- The lines of a text. -/
def ofText (text : String) : LineIndex := ⟨0 :: startsAfter 0 text.toList⟩

/-- The line and column of an offset. -/
def lineCol (index : LineIndex) (offset : Nat) : LineCol :=
  let begun := index.starts.takeWhile fun start => start ≤ offset
  ⟨begun.length, offset - begun.getLastD 0 + 1⟩

/-! ### Small laws -/

/-- Lines after an offset begin after it. -/
theorem lt_of_mem_startsAfter {offset start : Nat} {cs : List Char}
    (h : start ∈ startsAfter offset cs) : offset < start := by
  induction cs generalizing offset with
  | nil => cases h
  | cons c rest ih =>
    have hc := c.utf8Size_pos
    simp only [startsAfter] at h
    split at h
    · rcases List.mem_cons.1 h with rfl | h
      · omega
      · have := ih h
        omega
    · have := ih h
      omega

end LineIndex

end TemplateCompiler
