/-
The tokens of a template.

A text is read as end tags, comments, start tags and stretches of text, in this order of
preference at every place.  What a token is does not depend on the elements around it,
only on the characters from its first one on.  A comment without an end runs to the end
of the text, and an end tag may lack its `>`.  A start tag is the one token that can be
malformed: it needs a name, and it needs an end.

Text runs up to the next `<` outside an interpolation `{{ }}`, and an interpolation that
does not end takes all of the rest.
-/
import TemplateCompiler.Markup.Cursor
import TemplateCompiler.Markup.Document
import TemplateCompiler.Markup.Error

namespace TemplateCompiler

/-- A piece of markup. -/
inductive Token
  | endTag (name : String)
  | comment (content : String)
  | startTag (tag : String) (attrs : Attributes) (closing : Closing)
  | text (content : String)
  deriving DecidableEq

/-- The characters of tag names. -/
def isTagChar (c : Char) : Bool :=
  c.isAlphanum || c == '-' || c == '_' || c == ':' || c == '.'

/-- The characters of attribute names. -/
def isAttributeNameChar (c : Char) : Bool :=
  isTagChar c || c == '@' || c == '#' || c == '[' || c == ']' || c == '$'

/-- The elements that have no end tag. -/
def voidTags : List String :=
  ["area", "base", "br", "col", "embed", "hr", "img", "input", "link", "meta", "param",
    "source", "track", "wbr"]

/-- An element without an end tag, in any case of letters. -/
def isVoidTag (tag : String) : Bool := voidTags.contains (Text.lowerAscii tag)

namespace Token

/-! ### Text and values -/

/-- The text up to the next `<` outside an interpolation, and what is left. -/
def readText (inside : Bool) : List Char → List Char × List Char
  | [] => ([], [])
  | c :: rest =>
    if inside then
      if c == '}' && rest.head? == some '}' then
        let (content, left) := readText false (rest.drop 1)
        (c :: '}' :: content, left)
      else
        let (content, left) := readText true rest
        (c :: content, left)
    else if c == '{' && rest.head? == some '{' then
      let (content, left) := readText true (rest.drop 1)
      (c :: '{' :: content, left)
    else if c == '<' then ([], c :: rest)
    else
      let (content, left) := readText false rest
      (c :: content, left)
termination_by cs => cs.length

/-- An attribute value without quotes: up to a blank, a `>` or a `/>`. -/
def readBareValue : List Char → List Char × List Char
  | [] => ([], [])
  | c :: rest =>
    if isBlank c || c == '>' || (c == '/' && rest.head? == some '>') then ([], c :: rest)
    else
      let (value, left) := readBareValue rest
      (c :: value, left)

/-- An attribute value: between quotes of one kind, or without any.  A quote that is not
closed takes all of the rest. -/
def readValue (k : Cursor) : List Char × Cursor :=
  match k.rest with
  | '"' :: _ => let (value, k) := k.skipOne.takeWhile (· != '"'); (value, k.skipOne)
  | '\'' :: _ => let (value, k) := k.skipOne.takeWhile (· != '\''); (value, k.skipOne)
  | _ => let (value, left) := readBareValue k.rest; (value, k.advance value left)

theorem length_readText_le (inside : Bool) (cs : List Char) :
    (readText inside cs).2.length ≤ cs.length := by
  fun_induction readText inside cs <;> simp_all <;> omega

/-- Text that does not begin with a tag holds at least one character. -/
theorem length_readText_lt {c : Char} {rest : List Char} (h : c ≠ '<') :
    (readText false (c :: rest)).2.length < (c :: rest).length := by
  have h₁ := length_readText_le true (rest.drop 1)
  have h₂ := length_readText_le false rest
  have h₃ : (rest.drop 1).length ≤ rest.length := by simp
  rw [readText]
  by_cases hbrace : (c == '{' && rest.head? == some '{') = true
  · simp only [hbrace, if_true, Bool.false_eq_true, if_false, List.length_cons]
    omega
  · simp only [hbrace, beq_eq_false_iff_ne.2 h, Bool.false_eq_true, if_false, List.length_cons]
    omega

theorem length_readBareValue_le (cs : List Char) :
    (readBareValue cs).2.length ≤ cs.length := by
  induction cs with
  | nil => exact Nat.le_refl _
  | cons c rest ih =>
    simp only [readBareValue]
    split
    · exact Nat.le_refl _
    · exact Nat.le_succ_of_le ih

theorem length_readValue_le (k : Cursor) : (readValue k).2.rest.length ≤ k.rest.length := by
  unfold readValue
  split
  · have := k.skipOne.length_takeWhile_add (· != '"')
    simp only [Cursor.length_skipOne] at *
    omega
  · have := k.skipOne.length_takeWhile_add (· != '\'')
    simp only [Cursor.length_skipOne] at *
    omega
  · simpa [Cursor.advance] using length_readBareValue_le k.rest

/-! ### Tags -/

/-- A start tag ends here, with or without a slash. -/
def atTagEnd (rest : List Char) : Bool :=
  ['>'].isPrefixOf rest || ['/', '>'].isPrefixOf rest

/-- The attributes up to the end of a start tag, as they are written.  A character that
can begin neither an attribute nor the end of the tag is passed over. -/
def readAttributes (k : Cursor) : List Attribute × Cursor :=
  let k₀ := k.skipBlanks
  if k₀.atEnd || atTagEnd k₀.rest then ([], k₀)
  else
    let name := k₀.takeWhile isAttributeNameChar
    if name.1.isEmpty then readAttributes k₀.skipOne
    else
      let k₁ := name.2.skipBlanks
      match _hequals : k₁.skip? ['='] with
      | some k₂ =>
        let value := readValue k₂.skipBlanks
        let others := readAttributes value.2
        ((String.ofList name.1, some (String.ofList value.1)) :: others.1, others.2)
      | none =>
        let others := readAttributes k₁
        ((String.ofList name.1, none) :: others.1, others.2)
termination_by k.rest.length
decreasing_by
  all_goals
    rename_i hend hname
    have hblank := k.length_skipBlanks_le
    have htake := k.skipBlanks.length_takeWhile_add isAttributeNameChar
    have hskip := (k.skipBlanks.takeWhile isAttributeNameChar).2.length_skipBlanks_le
  · have : k.skipBlanks.rest.length ≠ 0 := by
      simp only [Cursor.atEnd, Bool.or_eq_true, List.isEmpty_iff, not_or] at hend
      simpa using hend.1
    have := k.skipBlanks.length_skipOne
    omega
  · have : (k.skipBlanks.takeWhile isAttributeNameChar).1.length ≠ 0 := by simpa using hname
    have hmark := Cursor.length_skip?_le _hequals
    have hblank' := k₂.length_skipBlanks_le
    have hvalue := length_readValue_le k₂.skipBlanks
    simp only [k₁, name, k₀, List.length_cons, List.length_nil] at *
    omega
  · have : (k.skipBlanks.takeWhile isAttributeNameChar).1.length ≠ 0 := by simpa using hname
    omega

theorem length_readAttributes_le (k : Cursor) :
    (readAttributes k).2.rest.length ≤ k.rest.length := by
  fun_induction readAttributes k with
  | case1 k k₀ => exact k.length_skipBlanks_le
  | case2 k k₀ _ name _ ih =>
    have := k.length_skipBlanks_le
    have := k₀.length_skipOne
    simp only [k₀] at *
    omega
  | case3 k k₀ _ name _ k₁ k₂ h value others ih =>
    have := k.length_skipBlanks_le
    have := k₀.length_takeWhile_add isAttributeNameChar
    have := name.2.length_skipBlanks_le
    have := Cursor.length_skip?_le h
    have := k₂.length_skipBlanks_le
    have := length_readValue_le k₂.skipBlanks
    simp only [others, value, k₁, name, k₀] at *
    omega
  | case4 k k₀ _ name _ k₁ h others ih =>
    have := k.length_skipBlanks_le
    have := k₀.length_takeWhile_add isAttributeNameChar
    have := name.2.length_skipBlanks_le
    simp only [others, k₁, name, k₀] at *
    omega

/-- A start tag, where `start` is the offset of its `<` and `k` stands after that. -/
def readStartTag (start : Nat) (k : Cursor) : Except ParseError (Token × Cursor) :=
  let name := k.skipBlanks.takeWhile isTagChar
  let tag := String.ofList name.1
  if name.1.isEmpty then .error (.noTagName name.2.rest.head? ⟨start, name.2.offset⟩)
  else
    let attrs := readAttributes name.2
    match attrs.2.skip? ['/', '>'] with
    | some k' => .ok (.startTag tag (.ofEntries attrs.1) .selfClosing, k')
    | none =>
      match attrs.2.skip? ['>'] with
      | some k' =>
        .ok (.startTag tag (.ofEntries attrs.1) (if isVoidTag tag then .void else .normal), k')
      | none => .error (.unclosedTag tag ⟨start, attrs.2.offset⟩)

/-- An end tag, read after its `</`. -/
def readEndTag (k : Cursor) : Token × Cursor :=
  let name := k.skipBlanks.takeWhile isTagChar
  (.endTag (String.ofList name.1), name.2.skipBlanks.skip ['>'])

/-- The next token of a text that is not at its end. -/
def next (k : Cursor) : Except ParseError (Token × Cursor) :=
  match k.skip? ['<', '/'] with
  | some k' => .ok (readEndTag k')
  | none =>
    match k.skip? ['<', '!', '-', '-'] with
    | some k' =>
      let content := k'.takePast ['-', '-', '>']
      .ok (.comment (String.ofList content.1), content.2)
    | none =>
      match k.skip? ['<'] with
      | some k' => readStartTag k.offset k'
      | none =>
        let (content, left) := readText false k.rest
        .ok (.text (String.ofList content), k.advance content left)

theorem length_readStartTag_le {start : Nat} {k k' : Cursor} {t : Token}
    (h : readStartTag start k = .ok (t, k')) : k'.rest.length ≤ k.rest.length := by
  have hblank := k.length_skipBlanks_le
  have hname := k.skipBlanks.length_takeWhile_add isTagChar
  have hattrs := length_readAttributes_le (k.skipBlanks.takeWhile isTagChar).2
  simp only [readStartTag] at h
  split at h
  · cases h
  · split at h
    · rename_i hskip
      cases h
      have := Cursor.length_skip?_le hskip
      omega
    · split at h
      · rename_i hskip
        cases h
        have := Cursor.length_skip?_le hskip
        omega
      · cases h

theorem length_readEndTag_le (k : Cursor) : (readEndTag k).2.rest.length ≤ k.rest.length := by
  have := k.length_skipBlanks_le
  have := k.skipBlanks.length_takeWhile_add isTagChar
  have := (k.skipBlanks.takeWhile isTagChar).2.length_skipBlanks_le
  have := (k.skipBlanks.takeWhile isTagChar).2.skipBlanks.length_skip_le ['>']
  simp only [readEndTag]
  omega

/-- A token takes at least one character. -/
theorem length_next_lt {k k' : Cursor} {t : Token} (hk : k.rest ≠ []) (h : next k = .ok (t, k')) :
    k'.rest.length < k.rest.length := by
  unfold next at h
  split at h
  · rename_i k₁ hskip
    cases h
    have := Cursor.length_skip?_le hskip
    have hend := length_readEndTag_le k₁
    simp only [List.length_cons, List.length_nil] at this
    exact Nat.lt_of_le_of_lt hend (by omega)
  · split at h
    · rename_i k₁ hskip
      cases h
      have := Cursor.length_skip?_le hskip
      have := k₁.length_takePast_le ['-', '-', '>']
      simp only [List.length_cons, List.length_nil] at *
      omega
    · split at h
      · rename_i k₁ hskip
        have := Cursor.length_skip?_le hskip
        have := length_readStartTag_le h
        simp only [List.length_cons, List.length_nil] at *
        omega
      · rename_i hskip
        cases h
        match hrest : k.rest with
        | [] => exact absurd hrest hk
        | c :: rest =>
          have hc : c ≠ '<' := by
            rintro rfl
            simp [Cursor.skip?, hrest, Text.afterChars?] at hskip
          exact length_readText_lt hc

end Token

end TemplateCompiler
