/-
A place in a text that is being read.

A cursor holds the characters still to be read and the number of bytes before them.
Every step takes characters off the front and counts their bytes, so the offset and the
byte length of the rest always have the same sum, and the rest never grows.
-/
import TemplateCompiler.Markup.Position
import TemplateCompiler.Text.Blank
import TemplateCompiler.Text.Search

namespace TemplateCompiler

/-- The rest of a text with the offset at which it begins. -/
structure Cursor where
  offset : Nat
  rest : List Char
  deriving DecidableEq

namespace Cursor

/-- The start of a text. -/
def ofText (text : String) : Cursor := ⟨0, text.toList⟩

/-- Nothing is left to read. -/
def atEnd (k : Cursor) : Bool := k.rest.isEmpty

/-- The cursor after `taken`, where `rest` is left. -/
def advance (k : Cursor) (taken rest : List Char) : Cursor := ⟨k.offset + byteLength taken, rest⟩

/-- The cursor after `mark`, if that is what comes next. -/
def skip? (k : Cursor) (mark : List Char) : Option Cursor :=
  (Text.afterChars? mark k.rest).map (k.advance mark)

/-- The cursor after `mark`, or where it was if something else comes next. -/
def skip (k : Cursor) (mark : List Char) : Cursor := (k.skip? mark).getD k

/-- The cursor after the next character. -/
def skipOne (k : Cursor) : Cursor := k.advance (k.rest.take 1) (k.rest.drop 1)

/-- The characters up to the first that does not satisfy `p`. -/
def takeWhile (k : Cursor) (p : Char → Bool) : List Char × Cursor :=
  let taken := k.rest.takeWhile p
  (taken, k.advance taken (k.rest.dropWhile p))

/-- The cursor after any blanks. -/
def skipBlanks (k : Cursor) : Cursor := (k.takeWhile isBlank).2

/-- The characters before the first `mark`, or all of them, and the cursor after it. -/
def takePast (k : Cursor) (mark : List Char) : List Char × Cursor :=
  match Text.cutChars mark k.rest with
  | some (before, after) => (before, k.advance (before ++ mark) after)
  | none => (k.rest, k.advance k.rest [])

/-! ### The rest never grows -/

theorem length_skip?_le {k k' : Cursor} {mark : List Char} (h : k.skip? mark = some k') :
    k'.rest.length + mark.length = k.rest.length := by
  obtain ⟨rest, hrest, rfl⟩ := Option.map_eq_some_iff.1 h
  have := congrArg List.length (Text.eq_append_of_afterChars? hrest)
  simp only [List.length_append] at this
  simp only [advance]
  omega

theorem length_skip_le (k : Cursor) (mark : List Char) :
    (k.skip mark).rest.length ≤ k.rest.length := by
  unfold skip
  cases h : k.skip? mark with
  | none => simp
  | some k' =>
    have := length_skip?_le h
    simp only [Option.getD_some]
    omega

theorem length_takeWhile_add (k : Cursor) (p : Char → Bool) :
    (k.takeWhile p).1.length + (k.takeWhile p).2.rest.length = k.rest.length := by
  simp only [takeWhile, advance]
  rw [← List.length_append, List.takeWhile_append_dropWhile]

theorem length_skipBlanks_le (k : Cursor) : k.skipBlanks.rest.length ≤ k.rest.length := by
  have := k.length_takeWhile_add isBlank
  simp only [skipBlanks]
  omega

theorem length_takePast_le (k : Cursor) (mark : List Char) :
    (k.takePast mark).2.rest.length ≤ k.rest.length := by
  unfold takePast
  cases h : Text.cutChars mark k.rest with
  | none => simp [advance]
  | some parts =>
    have := congrArg List.length (Text.eq_of_cutChars h)
    simp only [List.length_append] at this
    simp only [advance]
    omega

theorem length_skipOne (k : Cursor) : k.skipOne.rest.length = k.rest.length - 1 := by
  simp [skipOne, advance]

end Cursor

end TemplateCompiler
