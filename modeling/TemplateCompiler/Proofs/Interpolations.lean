/-
What becomes of a text with interpolations.

The pieces of a text are found by two searches, one inside the other.  Here they are said by what
they are: an interpolation goes from the first mark that opens one to the first that closes it,
and where none is closed any more, all that is left is one literal stretch.  A text can be cut in
this way in one way only, and that is how it is cut; so nothing of it is lost, and the sum of the
operands gives it back but for the blanks around the expressions.
-/
import TemplateCompiler.Proofs.Literals
import TemplateCompiler.Proofs.Reading.Grammar
import TemplateCompiler.Script.Interpolation

namespace TemplateCompiler

namespace Script

open Segment

/-! ### The pieces of a text -/

/-- A stretch of literal text, if there is any. -/
def stretch (cs : List Char) : List Segment := if cs.isEmpty then [] else [literal cs]

/-- The pieces of a text from left to right. -/
inductive Segmented : List Char → List Segment → Prop
  | nil : Segmented [] []
  /-- No interpolation is closed, so a mark that opens one is literal. -/
  | literal {cs : List Char} (hne : cs ≠ [])
      (hnone : ∀ before inside after, cs ≠ before ++ (interpolation inside).source ++ after) :
      Segmented cs [literal cs]
  | cons {before inside after : List Char} {segments : List Segment}
      (hopen : Text.FirstAt ['{', '{'] before (inside ++ ['}', '}'] ++ after))
      (hclose : Text.FirstAt ['}', '}'] inside after) (h : Segmented after segments) :
      Segmented (before ++ (interpolation inside).source ++ after)
        (stretch before ++ interpolation inside :: segments)

theorem source_append (before inside after : List Char) :
    before ++ (interpolation inside).source ++ after
      = before ++ ['{', '{'] ++ (inside ++ ['}', '}'] ++ after) := by
  simp [source]

namespace Segment

variable {cs before inside after : List Char}

/-- The first interpolation is found. -/
theorem cutInterpolation_of_firstAt
    (hopen : Text.FirstAt ['{', '{'] before (inside ++ ['}', '}'] ++ after))
    (hclose : Text.FirstAt ['}', '}'] inside after) :
    cutInterpolation (before ++ (interpolation inside).source ++ after)
      = some (before, inside, after) := by
  unfold cutInterpolation
  rw [source_append, Text.cutChars_of_firstAt (by simp) hopen, Option.bind_some]
  dsimp only
  rw [Text.cutChars_of_firstAt (by simp) hclose]
  rfl

/-- What is found is the first interpolation. -/
theorem firstAt_of_cutInterpolation (h : cutInterpolation cs = some (before, inside, after)) :
    Text.FirstAt ['{', '{'] before (inside ++ ['}', '}'] ++ after) ∧
      Text.FirstAt ['}', '}'] inside after := by
  obtain ⟨⟨before', opened⟩, hopen, h⟩ := Option.bind_eq_some_iff.mp h
  obtain ⟨⟨inside', after'⟩, hclose, h⟩ := Option.map_eq_some_iff.mp h
  cases h
  have hfirst := Text.firstAt_of_cutChars hopen
  rw [Text.eq_of_cutChars hclose] at hfirst
  exact ⟨hfirst, Text.firstAt_of_cutChars hclose⟩

/-- An interpolation is found if there is any: what stands after the first mark that opens one goes
at least as far back as what stands after any other. -/
theorem cutInterpolation_ne_none (before inside after : List Char) :
    cutInterpolation (before ++ (interpolation inside).source ++ after) ≠ none := by
  rw [source_append]
  intro hnone
  unfold cutInterpolation at hnone
  cases hopen : Text.cutChars ['{', '{']
      (before ++ ['{', '{'] ++ (inside ++ ['}', '}'] ++ after)) with
  | none => exact (Text.cutChars_eq_none_iff (by simp)).mp hopen before _ rfl
  | some parts =>
      obtain ⟨before', opened⟩ := parts
      rw [hopen, Option.bind_some, Option.map_eq_none_iff,
        Text.cutChars_eq_none_iff (by simp)] at hnone
      have heq := Text.eq_of_cutChars hopen
      have hle := Text.firstAt_of_cutChars hopen before _ heq.symm
      have hlength := congrArg List.length heq
      simp only [List.length_append] at hlength
      have hopened : opened <:+ before ++ ['{', '{'] ++ (inside ++ ['}', '}'] ++ after) :=
        heq ▸ List.suffix_append _ _
      obtain ⟨front, hfront⟩ : inside ++ ['}', '}'] ++ after <:+ opened :=
        List.suffix_of_suffix_length_le (List.suffix_append _ _) hopened (by
          simp only [List.length_append]
          omega)
      refine hnone (front ++ inside) after ?_
      rw [← hfront]
      simp only [List.append_assoc]

theorem ofText_eq_of_none (hne : cs ≠ []) (h : cutInterpolation cs = none) :
    ofText cs = [literal cs] := by
  have hempty : ¬ cs.isEmpty = true := by simpa using hne
  rw [ofText, if_neg hempty]
  split
  · rfl
  · rename_i hsome
    rw [h] at hsome
    cases hsome

theorem ofText_eq_of_cut (h : cutInterpolation cs = some (before, inside, after)) :
    ofText cs = stretch before ++ interpolation inside :: ofText after := by
  have hempty : ¬ cs.isEmpty = true := by
    rw [eq_of_cutInterpolation h]
    simp [source]
  rw [ofText, if_neg hempty]
  split
  · rename_i hnone
    rw [h] at hnone
    cases hnone
  · rename_i hsome
    rw [h] at hsome
    cases hsome
    rfl

/-- A text is cut into its pieces. -/
theorem segmented_ofText (cs : List Char) : Segmented cs (ofText cs) := by
  fun_induction ofText cs with
  | case1 cs hempty =>
      rw [List.isEmpty_iff.mp hempty]
      exact .nil
  | case2 cs hempty hcut =>
      refine .literal (by simpa using hempty) fun before inside after heq => ?_
      rw [heq] at hcut
      exact cutInterpolation_ne_none before inside after hcut
  | case3 cs hempty before inside after hcut ih =>
      obtain ⟨hopen, hclose⟩ := firstAt_of_cutInterpolation hcut
      rw [eq_of_cutInterpolation hcut]
      exact .cons hopen hclose ih

end Segment

/-- There is one way only to cut a text into its pieces. -/
theorem Segmented.eq_ofText {cs : List Char} {segments : List Segment} (h : Segmented cs segments) :
    segments = ofText cs := by
  induction h with
  | nil =>
      rw [ofText]
      rfl
  | @literal cs hne hnone =>
      cases hcut : cutInterpolation cs with
      | none => exact (ofText_eq_of_none hne hcut).symm
      | some parts =>
          obtain ⟨before, inside, after⟩ := parts
          exact absurd (eq_of_cutInterpolation hcut) (hnone before inside after)
  | cons hopen hclose h ih =>
      rw [ofText_eq_of_cut (cutInterpolation_of_firstAt hopen hclose), ← ih]

/-- No stretch is empty. -/
theorem Segmented.ne_nil {cs text : List Char} {segments : List Segment}
    (h : Segmented cs segments) (hmem : Segment.literal text ∈ segments) : text ≠ [] := by
  induction h with
  | nil => cases hmem
  | literal hne hnone =>
      cases List.mem_singleton.mp hmem
      exact hne
  | @cons before inside after segments hopen hclose h ih =>
      rcases List.mem_append.mp hmem with hmem | hmem
      · unfold stretch at hmem
        split at hmem
        · cases hmem
        · rename_i hempty
          cases List.mem_singleton.mp hmem
          simpa using hempty
      · rcases List.mem_cons.mp hmem with hmem | hmem
        · cases hmem
        · exact ih hmem

/-! ### The sum of the operands -/

/-- What is put before the operands: an empty literal, if no stretch comes first. -/
def lead : List Segment → List (List Char)
  | literal _ :: _ => []
  | _ => [quoteChars []]

theorem toList_ofInterpolated (text : String) :
    (ofInterpolated text).toList = ['+'].intercalate
      (lead (ofText text.toList) ++ (ofText text.toList).map operand) := by
  unfold ofInterpolated
  rw [String.toList_ofList]
  cases ofText text.toList with
  | nil => rfl
  | cons segment segments => cases segment <;> rfl

/-- The sum begins with a string literal, which nothing or another operand follows. -/
theorem exists_readString (segments : List Segment) :
    ∃ text left, readString (['+'].intercalate (lead segments ++ segments.map operand))
        = some (text, left) ∧ (left = [] ∨ ∃ more, left = '+' :: more) := by
  obtain ⟨text, others, hoperands⟩ : ∃ (text : String) (others : List (List Char)),
      lead segments ++ segments.map operand = (quote text).toList :: others := by
    cases segments with
    | nil => exact ⟨"", [], rfl⟩
    | cons segment segments =>
        cases segment with
        | literal text =>
            refine ⟨.ofList text, segments.map operand, ?_⟩
            rw [toList_quote, String.toList_ofList]
            rfl
        | interpolation expression => exact ⟨"", _, rfl⟩
  rw [hoperands]
  cases others with
  | nil =>
      have hread := readString_quote text []
      rw [List.append_nil] at hread
      rw [List.intercalate_singleton]
      exact ⟨text, [], hread, .inl rfl⟩
  | cons next others =>
      rw [List.intercalate_cons_cons, List.append_assoc]
      exact ⟨text, _, readString_quote text _, .inr ⟨_, rfl⟩⟩

/-- The piece as its operand has it, without blanks around the expression. -/
def Segment.trimmed : Segment → Segment
  | literal text => literal text
  | interpolation expression => interpolation (Text.trimChars expression)

/-- The text is made of the pieces, with blanks around their expressions. -/
inductive Padded : List Segment → List Char → Prop
  | nil : Padded [] []
  | literal {text cs : List Char} {segments : List Segment} (h : Padded segments cs) :
      Padded (literal text :: segments) (text ++ cs)
  | interpolation {expression front back cs : List Char} {segments : List Segment}
      (hfront : ∀ c ∈ front, isBlank c = true) (hback : ∀ c ∈ back, isBlank c = true)
      (h : Padded segments cs) :
      Padded (interpolation expression :: segments)
        ((interpolation (front ++ expression ++ back)).source ++ cs)

theorem padded_trimmed (segments : List Segment) :
    Padded (segments.map trimmed) (segments.flatMap source) := by
  induction segments with
  | nil => exact .nil
  | cons segment segments ih =>
      cases segment with
      | literal text => exact .literal ih
      | interpolation expression =>
          obtain ⟨front, back, heq, hfront, hback⟩ := Text.exists_trimChars expression
          have hpadded : Padded (interpolation (Text.trimChars expression) :: segments.map trimmed)
              ((interpolation (front ++ Text.trimChars expression ++ back)).source
                ++ segments.flatMap source) := .interpolation hfront hback ih
          rw [← heq] at hpadded
          exact hpadded

/-- `sum` is the sum that the pieces of the text make. -/
structure SumOf (text : List Char) (segments : List Segment) (sum : List Char) : Prop where
  /-- The pieces are those of the text, and no others are. -/
  segmented : ∀ others, Segmented text others ↔ others = segments
  /-- No stretch is empty. -/
  stretches : ∀ stretch, literal stretch ∈ segments → stretch ≠ []
  /-- The operands are the stretches as literals and the expressions in parentheses, without the
  blanks around them, in the order of the pieces and after what is put before them. -/
  operands : sum = ['+'].intercalate (lead segments ++ segments.map fun
    | literal stretch => quoteChars stretch
    | interpolation expression => '(' :: Text.trimChars expression ++ [')'])
  /-- An empty literal is put before them in these two cases, and else nothing. -/
  leads : text = [] ∨ (∃ expression others, segments = interpolation expression :: others) →
    lead segments = [quoteChars []]
  starts : (∃ stretch others, segments = literal stretch :: others) → lead segments = []
  /-- The first operand is a string literal. -/
  first : ∃ stretch left, readString sum = some (stretch, left) ∧
    (left = [] ∨ ∃ more, left = '+' :: more)
  /-- The pieces as they stand in the operands are the text but for blanks. -/
  restores : Padded (segments.map trimmed) text

/-- The expression of a text with interpolations is the sum of its pieces. -/
theorem sumOf_ofInterpolated (text : String) :
    ∃ segments, SumOf text.toList segments (ofInterpolated text).toList := by
  have hsegmented := segmented_ofText text.toList
  refine ⟨ofText text.toList, fun others => ⟨fun h => h.eq_ofText, fun h => h ▸ hsegmented⟩,
    fun stretch hmem => hsegmented.ne_nil hmem, toList_ofInterpolated text, ?_, ?_, ?_, ?_⟩
  · rintro (hempty | ⟨expression, others, heq⟩)
    · rw [hempty, ofText]
      rfl
    · rw [heq]
      rfl
  · rintro ⟨stretch, others, heq⟩
    rw [heq]
    rfl
  · rw [toList_ofInterpolated]
    exact exists_readString _
  · have hpadded := padded_trimmed (ofText text.toList)
    rw [flatMap_source_ofText] at hpadded
    exact hpadded

end Script

end TemplateCompiler
