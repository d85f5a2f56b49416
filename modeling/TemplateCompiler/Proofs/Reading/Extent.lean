/-
What a cursor passes over.

Every step of the reader takes characters off the front of the text and counts their bytes.
`Takes` says so of two cursors and the characters between them, and it composes; so the offsets
of two cursors of one reading are the two ends of a slice of the text, whatever was read between
them.  A token is then known by its piece, from the first character to the last: no character is
skipped between tokens, and a start tag that is malformed begins with the `<` that the error
points at.
-/
import TemplateCompiler.Proofs.Reading.Grammar

namespace TemplateCompiler

/-! ### Bytes -/

/-- The length that is counted is that of the UTF-8 form. -/
theorem byteLength_toList (text : String) : byteLength text.toList = text.utf8ByteSize := by
  have hlist : ∀ cs : List Char, byteLength cs = (String.ofList cs).utf8ByteSize := by
    intro cs
    induction cs with
    | nil => rfl
    | cons c rest ih =>
        rw [byteLength, ih, ← List.singleton_append, String.ofList_append,
          String.utf8ByteSize_append, ← String.singleton_eq_ofList, String.utf8ByteSize_singleton]
  rw [hlist, String.ofList_toList]

/-- A text is cut at an offset in one way only. -/
theorem append_inj_of_byteLength {cs ds front back : List Char} (h : front ++ cs = back ++ ds)
    (hlength : byteLength front = byteLength back) : front = back ∧ cs = ds := by
  induction front generalizing back with
  | nil =>
      cases back with
      | nil => exact ⟨rfl, h⟩
      | cons c back =>
          have hc := c.utf8Size_pos
          simp only [byteLength] at hlength
          omega
  | cons c front ih =>
      cases back with
      | nil =>
          have hc := c.utf8Size_pos
          simp only [byteLength] at hlength
          omega
      | cons c' back =>
          rw [List.cons_append, List.cons_append, List.cons.injEq] at h
          obtain ⟨rfl, h⟩ := h
          obtain ⟨rfl, hrest⟩ := ih h (Nat.add_left_cancel hlength)
          exact ⟨rfl, hrest⟩

/-- The text has the piece between the two offsets of the span, and both lie between characters. -/
def Span.Cuts (span : Span) (text piece : List Char) : Prop :=
  ∃ before after, text = before ++ piece ++ after ∧
    span = ⟨byteLength before, byteLength (before ++ piece)⟩

namespace Cursor

/-! ### One cursor after another -/

/-- From `k` the reader has taken the characters `piece` and stands at `k'`. -/
def Takes (k : Cursor) (piece : List Char) (k' : Cursor) : Prop :=
  k.rest = piece ++ k'.rest ∧ k'.offset = k.offset + byteLength piece

/-- The cursor stands in the text, after the characters `before`. -/
def After (k : Cursor) (text before : List Char) : Prop :=
  text = before ++ k.rest ∧ k.offset = byteLength before

variable {k k₁ k₂ : Cursor} {text before piece piece' : List Char}

theorem Takes.refl (k : Cursor) : k.Takes [] k := ⟨rfl, rfl⟩

theorem Takes.trans (h : k.Takes piece k₁) (h' : k₁.Takes piece' k₂) :
    k.Takes (piece ++ piece') k₂ := by
  refine ⟨?_, ?_⟩
  · rw [h.1, h'.1, List.append_assoc]
  · rw [h'.2, h.2, byteLength_append, Nat.add_assoc]

/-- An advance takes what it counts. -/
theorem takes_advance {rest : List Char} (h : k.rest = piece ++ rest) :
    k.Takes piece (k.advance piece rest) := ⟨h, rfl⟩

theorem after_ofText (text : String) : (Cursor.ofText text).After text.toList [] := ⟨rfl, rfl⟩

theorem After.takes (h : k.After text before) (htakes : k.Takes piece k₁) :
    k₁.After text (before ++ piece) := by
  refine ⟨?_, ?_⟩
  · rw [h.1, htakes.1, List.append_assoc]
  · rw [htakes.2, h.2, byteLength_append]

/-- What is taken between two cursors is the slice between their offsets. -/
theorem After.cuts (h : k.After text before) (htakes : k.Takes piece k₁) :
    Span.Cuts ⟨k.offset, k₁.offset⟩ text piece := by
  refine ⟨before, k₁.rest, (h.takes htakes).1, ?_⟩
  rw [h.2, (h.takes htakes).2]

/-! ### The steps of the reader -/

theorem takes_skip? {mark : List Char} (h : k.skip? mark = some k₁) : k.Takes mark k₁ := by
  obtain ⟨rest, hrest, rfl⟩ := Option.map_eq_some_iff.mp h
  exact takes_advance (Text.eq_append_of_afterChars? hrest)

theorem takes_takeWhile (k : Cursor) (p : Char → Bool) :
    k.Takes (k.takeWhile p).1 (k.takeWhile p).2 :=
  takes_advance List.takeWhile_append_dropWhile.symm

theorem takes_skipBlanks (k : Cursor) : k.Takes (k.takeWhile isBlank).1 k.skipBlanks :=
  k.takes_takeWhile isBlank

theorem takes_skipOne (k : Cursor) : k.Takes (k.rest.take 1) k.skipOne :=
  takes_advance (List.take_append_drop 1 k.rest).symm

end Cursor

namespace Token

open Cursor

variable {k k' : Cursor}

theorem readBareValue_append (cs : List Char) :
    (readBareValue cs).1 ++ (readBareValue cs).2 = cs := by
  induction cs with
  | nil => rfl
  | cons c rest ih =>
      rw [readBareValue]
      split
      · rfl
      · exact congrArg (c :: ·) ih

theorem exists_takes_readValue (k : Cursor) : ∃ piece, k.Takes piece (readValue k).2 := by
  have hquoted : ∀ p, ∃ piece, k.Takes piece (k.skipOne.takeWhile p).2.skipOne := fun p =>
    ⟨_, (k.takes_skipOne.trans (k.skipOne.takes_takeWhile p)).trans (takes_skipOne _)⟩
  unfold readValue
  split
  · exact hquoted _
  · exact hquoted _
  · exact ⟨_, takes_advance (readBareValue_append k.rest).symm⟩

theorem exists_takes_readAttributes (k : Cursor) :
    ∃ piece, k.Takes piece (readAttributes k).2 := by
  fun_induction readAttributes k with
  | case1 k k₀ => exact ⟨_, k.takes_skipBlanks⟩
  | case2 k k₀ _ name _ ih =>
      obtain ⟨piece, hpiece⟩ := ih
      exact ⟨_, (k.takes_skipBlanks.trans k₀.takes_skipOne).trans hpiece⟩
  | case3 k k₀ _ name _ k₁ k₂ h value others ih =>
      obtain ⟨piece, hpiece⟩ := ih
      obtain ⟨written, hwritten⟩ := exists_takes_readValue k₂.skipBlanks
      have hname := (k.takes_skipBlanks.trans (k₀.takes_takeWhile isAttributeNameChar)).trans
        name.2.takes_skipBlanks
      have hvalue := ((takes_skip? h).trans k₂.takes_skipBlanks).trans hwritten
      exact ⟨_, (hname.trans hvalue).trans hpiece⟩
  | case4 k k₀ _ name _ k₁ h others ih =>
      obtain ⟨piece, hpiece⟩ := ih
      have hname := (k.takes_skipBlanks.trans (k₀.takes_takeWhile isAttributeNameChar)).trans
        name.2.takes_skipBlanks
      exact ⟨_, hname.trans hpiece⟩

/-! ### The piece of a token -/

/-- What the piece of a token looks like, where `after` follows it. -/
def Form (piece after : List Char) : Token → Prop
  | endTag _ => ['<', '/'] <+: piece
  | comment content =>
    piece = "<!--".toList ++ content.toList ++ "-->".toList ∨
      piece = "<!--".toList ++ content.toList ∧ after = []
  | startTag _ _ _ => ∃ inner, piece = '<' :: (inner ++ ['>'])
  | text content => piece = content.toList

/-- The start tag is taken from its `<` up to its attributes. -/
theorem NamesTag.exists_takes {name : List Char} {attrs : List Attribute}
    (h : NamesTag k name attrs k') : ∃ inner, k.Takes ('<' :: inner) k' := by
  obtain ⟨blanks, after, hopens, -, hattrs⟩ := h.attributes
  obtain ⟨piece, hpiece⟩ :=
    exists_takes_readAttributes (k.advance (['<'] ++ blanks ++ name) after)
  rw [hattrs] at hpiece
  have hname : k.Takes (['<'] ++ blanks ++ name) (k.advance (['<'] ++ blanks ++ name) after) := by
    refine takes_advance ?_
    rw [hopens.rest_eq]
    simp only [List.append_assoc]
  exact ⟨_, hname.trans hpiece⟩

/-- A token that is read is a piece of the text of its form. -/
theorem exists_takes_of_next {token : Token} (hk : k.rest ≠ [])
    (h : next k = .ok (token, k')) : ∃ piece, k.Takes piece k' ∧ token.Form piece k'.rest := by
  have hstands := (stands_iff hk).mpr h
  cases hstands with
  | endTag hrest =>
      refine ⟨_, takes_advance ?_, ?_⟩
      · rw [hrest]
        simp only [List.append_assoc]
      · simp only [Form, List.append_assoc]
        exact List.prefix_append _ _
  | @comment content rest hrest =>
      refine ⟨_, takes_advance ?_, .inl ?_⟩
      · rw [hrest]
        simp only [List.append_assoc]
      · rw [@String.toList_ofList content, List.append_assoc]
        rfl
  | @endlessComment content hrest =>
      refine ⟨_, takes_advance ?_, .inr ⟨?_, rfl⟩⟩
      · rw [hrest, List.append_nil]
      · rw [@String.toList_ofList content]
        rfl
  | selfClosing htag hrest =>
      obtain ⟨inner, hinner⟩ := htag.exists_takes
      refine ⟨_, hinner.trans (takes_advance hrest), inner ++ ['/'], ?_⟩
      simp
  | startTag htag hrest =>
      obtain ⟨inner, hinner⟩ := htag.exists_takes
      exact ⟨_, hinner.trans (takes_advance hrest), inner, rfl⟩
  | text hrest =>
      refine ⟨_, takes_advance hrest, ?_⟩
      rw [Form, String.toList_ofList]

/-- The piece of a token is not empty. -/
theorem ne_nil_of_next {token : Token} {piece : List Char} (hk : k.rest ≠ [])
    (h : next k = .ok (token, k')) (htakes : k.Takes piece k') : piece ≠ [] := by
  rintro rfl
  have hlt := length_next_lt hk h
  rw [htakes.1, List.nil_append] at hlt
  exact Nat.lt_irrefl _ hlt

/-- A start tag that is malformed is reported from its `<` on. -/
theorem exists_takes_of_next_error {e : ParseError} (hk : k.rest ≠ []) (h : next k = .error e) :
    ∃ inner k', k.Takes ('<' :: inner) k' ∧ e.span = ⟨k.offset, k'.offset⟩ := by
  have hstands := (stands_iff hk).mpr h
  cases hstands with
  | @noTagName blanks rest hopens =>
      refine ⟨blanks, k.advance (['<'] ++ blanks) rest, takes_advance ?_, rfl⟩
      rw [hopens.rest_eq]
      rfl
  | @unclosedTag name attrs k₁ htag =>
      obtain ⟨inner, hinner⟩ := htag.exists_takes
      exact ⟨inner, k₁, hinner, rfl⟩

end Token

end TemplateCompiler
