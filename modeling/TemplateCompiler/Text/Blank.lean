/-
Blanks: white space around and between the words of a text.

Everything is said of lists of characters, where it can be reasoned about, and then
carried over to strings.  Trimming removes blanks at the ends only, and the words of a
text are its longest stretches without a blank.
-/
import TemplateCompiler.Text.Ranges

namespace TemplateCompiler

/-- The ranges of the property White_Space. -/
def blankRanges : CodeRanges := [
  (0x9, 0xd), (0x20, 0x20), (0x85, 0x85), (0xa0, 0xa0), (0x1680, 0x1680), (0x2000, 0x200a),
  (0x2028, 0x2029), (0x202f, 0x202f), (0x205f, 0x205f), (0x3000, 0x3000)]

/-- A white space character of any script. -/
def isBlank (c : Char) : Bool := blankRanges.has c

/-- The ASCII blanks, among which the vertical tab is not counted. -/
def isAsciiBlank (c : Char) : Bool :=
  c == ' ' || c == '\t' || c == '\n' || c == '\r' || c == '\x0c'

namespace Text

/-! ### Lists of characters -/

/-- The characters without those at the end that satisfy `p`. -/
def dropEndWhile (p : Char → Bool) (cs : List Char) : List Char :=
  (cs.reverse.dropWhile p).reverse

/-- The characters without blanks at the front. -/
def trimStartChars (cs : List Char) : List Char := cs.dropWhile isBlank

/-- The characters without blanks at the end. -/
def trimEndChars (cs : List Char) : List Char := dropEndWhile isBlank cs

/-- The characters without blanks at either end. -/
def trimChars (cs : List Char) : List Char := trimEndChars (trimStartChars cs)

/-- The longest stretches without a blank, in order. -/
def wordsChars (cs : List Char) : List (List Char) :=
  (cs.splitOnP isBlank).filter fun word => !word.isEmpty

/-! ### Strings -/

/-- The text without blanks at the end. -/
def trimEnd (s : String) : String := String.ofList (trimEndChars s.toList)

/-- The text without blanks at either end. -/
def trim (s : String) : String := String.ofList (trimChars s.toList)

/-- The words of the text, in order. -/
def words (s : String) : List String := (wordsChars s.toList).map String.ofList

/-- Nothing but blanks. -/
def isBlankText (s : String) : Bool := s.toList.all isBlank

/-! ### Small laws -/

theorem dropEndWhile_append_of_neg {p : Char → Bool} (cs : List Char) {c : Char} (h : p c = false) :
    dropEndWhile p (cs ++ [c]) = cs ++ [c] := by
  simp [dropEndWhile, h]

theorem wordsChars_nil : wordsChars [] = [] := by
  simp [wordsChars]

/-- A word holds at least one character. -/
theorem ne_nil_of_mem_wordsChars {cs word : List Char} (h : word ∈ wordsChars cs) : word ≠ [] := by
  simp only [wordsChars, List.mem_filter] at h
  simpa using h.2

end Text

end TemplateCompiler
