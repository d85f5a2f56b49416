/-
Text with interpolations as an expression.

A text is cut into literal stretches and interpolations `{{ }}`, from left to right; an
interpolation ends at the first `}}`, and one that does not end belongs to the literal
text.  The expression is the sum of the pieces.  It starts with a string literal, an
empty one if need be, so that the sum is always that of texts.
-/
import TemplateCompiler.Script.Literal
import TemplateCompiler.Text.Blank
import TemplateCompiler.Text.Search

namespace TemplateCompiler

namespace Script

/-- A piece of a text with interpolations. -/
inductive Segment
  | literal (text : List Char)
  /-- What stands between the braces. -/
  | interpolation (expression : List Char)
  deriving DecidableEq

namespace Segment

/-- The first interpolation: what stands before, inside and after it. -/
def cutInterpolation (cs : List Char) : Option (List Char × List Char × List Char) :=
  (Text.cutChars ['{', '{'] cs).bind fun (before, opened) =>
    (Text.cutChars ['}', '}'] opened).map fun (inside, after) => (before, inside, after)

theorem length_cutInterpolation {cs before inside after : List Char}
    (h : cutInterpolation cs = some (before, inside, after)) :
    before.length + inside.length + after.length + 4 = cs.length := by
  obtain ⟨⟨before', opened⟩, hopen, h⟩ := Option.bind_eq_some_iff.1 h
  obtain ⟨⟨inside', after'⟩, hclose, h⟩ := Option.map_eq_some_iff.1 h
  cases h
  have h₁ := congrArg List.length (Text.eq_of_cutChars hopen)
  have h₂ := congrArg List.length (Text.eq_of_cutChars hclose)
  simp only [List.length_append, List.length_cons, List.length_nil] at h₁ h₂
  omega

/-- The pieces of a text. -/
def ofText (cs : List Char) : List Segment :=
  if cs.isEmpty then []
  else
    match _hcut : cutInterpolation cs with
    | none => [literal cs]
    | some (before, inside, after) =>
      (if before.isEmpty then [] else [literal before]) ++ interpolation inside :: ofText after
termination_by cs.length
decreasing_by
  have := length_cutInterpolation _hcut
  omega

/-- The piece as it stands in the text. -/
def source : Segment → List Char
  | literal text => text
  | interpolation expression => '{' :: '{' :: expression ++ ['}', '}']

/-- The piece as an operand of the sum. -/
def operand : Segment → List Char
  | literal text => quoteChars text
  | interpolation expression => '(' :: Text.trimChars expression ++ [')']

def isInterpolation : Segment → Bool
  | literal _ => false
  | interpolation _ => true

theorem eq_of_cutInterpolation {cs before inside after : List Char}
    (h : cutInterpolation cs = some (before, inside, after)) :
    cs = before ++ (interpolation inside).source ++ after := by
  obtain ⟨⟨before', opened⟩, hopen, h⟩ := Option.bind_eq_some_iff.1 h
  obtain ⟨⟨inside', after'⟩, hclose, h⟩ := Option.map_eq_some_iff.1 h
  cases h
  rw [Text.eq_of_cutChars hopen, Text.eq_of_cutChars hclose]
  simp [source]

/-- The pieces of a text are all of it. -/
theorem flatMap_source_ofText (cs : List Char) : (ofText cs).flatMap source = cs := by
  fun_induction ofText cs with
  | case1 cs h => simpa using h
  | case2 cs h hcut => simp [source]
  | case3 cs h before inside after hcut ih =>
    rw [eq_of_cutInterpolation hcut, List.flatMap_append, List.flatMap_cons, ih]
    cases before <;> simp [source]

end Segment

/-- The sum of the pieces of a text. -/
def ofInterpolated (text : String) : String :=
  let segments := Segment.ofText text.toList
  let operands := segments.map Segment.operand
  let operands := if segments.head?.all Segment.isInterpolation then quoteChars [] :: operands else operands
  String.ofList (['+'].intercalate operands)

end Script

end TemplateCompiler
