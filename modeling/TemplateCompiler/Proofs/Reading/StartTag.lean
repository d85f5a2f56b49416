/-
Start tags are read back.

A start tag is printed with one blank before each attribute and every value between double
quotes.  Reading it gives the same names in the same order and the same values, except that
a quote in a value has become `&quot;` and stays so.  What is needed is that names are made
of the characters of names: then a name ends where its value, the next attribute or the end
of the tag begins, and a bare name is never followed by an equals sign.
-/
import Mathlib.Data.List.DropRight
import TemplateCompiler.Markup.Print
import TemplateCompiler.Proofs.Attributes
import TemplateCompiler.Proofs.Reading.Cursor

namespace TemplateCompiler

namespace Token

/-! ### Values and attributes -/

theorem not_mem_escapeValue (value : List Char) : '"' ∉ escapeValue value := by
  intro h
  obtain ⟨c, -, hc⟩ := List.mem_flatMap.mp h
  by_cases hquote : (c == '"') = true
  · rw [if_pos hquote] at hc
    exact absurd hc (by decide)
  · rw [if_neg hquote, List.mem_singleton] at hc
    exact hquote (by rw [← hc]; rfl)

/-- A value between two quotes of one kind is read. -/
theorem readValue_between {k : Cursor} {quote : Char} {value rest : List Char}
    (hquote : quote = '"' ∨ quote = '\'') (hvalue : quote ∉ value)
    (hk : k.rest = quote :: (value ++ quote :: rest)) :
    (readValue k).1 = value ∧ (readValue k).2.rest = rest := by
  have hinside : ∀ c ∈ value, (c != quote) = true := by
    intro c hc
    rw [bne_iff_ne]
    rintro rfl
    exact hvalue hc
  have hread : readValue k = ((k.skipOne.takeWhile (· != quote)).1,
      (k.skipOne.takeWhile (· != quote)).2.skipOne) := by
    unfold readValue
    rw [hk]
    rcases hquote with rfl | rfl
    · rfl
    · rfl
  have hrest : k.skipOne.rest = value ++ quote :: rest := by
    unfold Cursor.skipOne
    rw [hk]
    rfl
  have htake : (k.skipOne.takeWhile (· != quote)).1 = value := by
    unfold Cursor.takeWhile
    rw [hrest, List.takeWhile_append_of_pos hinside]
    simp
  have hdrop : (k.skipOne.takeWhile (· != quote)).2.rest = quote :: rest := by
    rw [Cursor.rest_takeWhile, hrest, List.dropWhile_append_of_pos hinside]
    simp
  rw [hread]
  refine ⟨htake, ?_⟩
  show ((k.skipOne.takeWhile (· != quote)).2.rest).drop 1 = rest
  rw [hdrop]
  rfl

/-- At the end of a start tag there are no more attributes. -/
theorem readAttributes_end {k : Cursor}
    (h : (k.skipBlanks.atEnd || atTagEnd k.skipBlanks.rest) = true) :
    readAttributes k = ([], k.skipBlanks) := by
  rw [readAttributes]
  exact if_pos h

/-- An attribute with a value is read, and then the others. -/
theorem readAttributes_value {k k' : Cursor}
    (hend : (k.skipBlanks.atEnd || atTagEnd k.skipBlanks.rest) = false)
    (hname : (k.skipBlanks.takeWhile isAttributeNameChar).1 ≠ [])
    (hequals : (k.skipBlanks.takeWhile isAttributeNameChar).2.skipBlanks.skip? ['='] = some k') :
    readAttributes k =
      ((String.ofList (k.skipBlanks.takeWhile isAttributeNameChar).1,
          some (String.ofList (readValue k'.skipBlanks).1))
        :: (readAttributes (readValue k'.skipBlanks).2).1,
        (readAttributes (readValue k'.skipBlanks).2).2) := by
  have hempty : ¬ (k.skipBlanks.takeWhile isAttributeNameChar).1.isEmpty = true := by
    simpa using hname
  rw [readAttributes, if_neg (by rw [hend]; exact Bool.false_ne_true), if_neg hempty]
  dsimp only
  split
  · rename_i k₂ h₂
    rw [hequals] at h₂
    cases h₂
    rfl
  · rename_i h₂
    rw [hequals] at h₂
    cases h₂

/-- An attribute without a value is read, and then the others. -/
theorem readAttributes_bare {k : Cursor}
    (hend : (k.skipBlanks.atEnd || atTagEnd k.skipBlanks.rest) = false)
    (hname : (k.skipBlanks.takeWhile isAttributeNameChar).1 ≠ [])
    (hequals : (k.skipBlanks.takeWhile isAttributeNameChar).2.skipBlanks.skip? ['='] = none) :
    readAttributes k =
      ((String.ofList (k.skipBlanks.takeWhile isAttributeNameChar).1, none)
        :: (readAttributes (k.skipBlanks.takeWhile isAttributeNameChar).2.skipBlanks).1,
        (readAttributes (k.skipBlanks.takeWhile isAttributeNameChar).2.skipBlanks).2) := by
  have hempty : ¬ (k.skipBlanks.takeWhile isAttributeNameChar).1.isEmpty = true := by
    simpa using hname
  rw [readAttributes, if_neg (by rw [hend]; exact Bool.false_ne_true), if_neg hempty]
  dsimp only
  split
  · rename_i k₂ h₂
    rw [hequals] at h₂
    cases h₂
  · rfl

/-! ### One attribute and what follows it -/

section

variable {name : String} {tail : List Char} {k : Cursor}

/-- What begins with an attribute name is not the end of a start tag. -/
theorem not_atTagEnd_of_name (h : IsAttributeName name) (rest : List Char) :
    ((name.toList ++ rest).isEmpty || atTagEnd (name.toList ++ rest)) = false := by
  obtain ⟨c, cs, hname, hc⟩ := h.exists_cons
  have h₁ : c ≠ '>' := by
    rintro rfl
    exact absurd hc (by decide)
  have h₂ : c ≠ '/' := by
    rintro rfl
    exact absurd hc (by decide)
  simp [hname, atTagEnd, List.isPrefixOf, h₁.symm, h₂.symm]

/-- No name begins with an equals sign. -/
theorem afterChars?_equals_name (h : IsAttributeName name) (rest : List Char) :
    Text.afterChars? ['='] (name.toList ++ rest) = none := by
  obtain ⟨c, cs, hname, hc⟩ := h.exists_cons
  have hne : '=' ≠ c := by
    rintro rfl
    exact absurd hc (by decide)
  simp [hname, Text.afterChars?, hne]

/-- The name of an attribute is read from where it stands. -/
theorem takeWhile_attributeName (hname : IsAttributeName name)
    (hk : k.skipBlanks.rest = name.toList ++ tail)
    (htail : ∀ c, tail.head? = some c → isAttributeNameChar c = false) :
    (k.skipBlanks.atEnd || atTagEnd k.skipBlanks.rest) = false ∧
      (k.skipBlanks.takeWhile isAttributeNameChar).1 = name.toList ∧
      (k.skipBlanks.takeWhile isAttributeNameChar).2.rest = tail := by
  obtain ⟨htake, hdrop⟩ := takeWhile_name hname htail
  refine ⟨?_, ?_, ?_⟩
  · unfold Cursor.atEnd
    rw [hk]
    exact not_atTagEnd_of_name hname tail
  · show k.skipBlanks.rest.takeWhile isAttributeNameChar = name.toList
    rw [hk]
    exact htake
  · rw [Cursor.rest_takeWhile, hk]
    exact hdrop

/-- An attribute is bare where no equals sign comes after its name. -/
theorem readAttributes_name (hname : IsAttributeName name)
    (hk : k.skipBlanks.rest = name.toList ++ tail)
    (htail : ∀ c, tail.head? = some c → isAttributeNameChar c = false)
    (hequals : Text.afterChars? ['='] (tail.dropWhile isBlank) = none) :
    ∃ k', k'.skipBlanks.rest = tail.dropWhile isBlank ∧
      readAttributes k = ((name, none) :: (readAttributes k').1, (readAttributes k').2) := by
  obtain ⟨hend, htake, hafter⟩ := takeWhile_attributeName hname hk htail
  have hrest : (k.skipBlanks.takeWhile isAttributeNameChar).2.skipBlanks.rest
      = tail.dropWhile isBlank := by
    rw [Cursor.rest_skipBlanks, hafter]
  have hskip : (k.skipBlanks.takeWhile isAttributeNameChar).2.skipBlanks.skip? ['='] = none :=
    Cursor.skip?_eq_none _ (by rw [hrest]; exact hequals)
  refine ⟨(k.skipBlanks.takeWhile isAttributeNameChar).2.skipBlanks, ?_, ?_⟩
  · rw [Cursor.rest_skipBlanks, hrest, List.dropWhile_idempotent]
  · rw [readAttributes_bare hend (by rw [htake]; exact hname.1) hskip, htake, String.ofList_toList]

/-- After an equals sign, with blanks around it or without, stands a value. -/
theorem readAttributes_equals {before after written value : List Char}
    (hname : IsAttributeName name) (hbefore : ∀ c ∈ before, isBlank c = true)
    (hafter : ∀ c ∈ after, isBlank c = true)
    (hk : k.skipBlanks.rest = name.toList ++ (before ++ '=' :: (after ++ written)))
    (hhead : ∀ c, written.head? = some c → isBlank c = false)
    (hread : ∀ k : Cursor, k.rest = written →
      (readValue k).1 = value ∧ (readValue k).2.rest = tail) :
    ∃ k', k'.skipBlanks.rest = tail.dropWhile isBlank ∧
      readAttributes k
        = ((name, some (.ofList value)) :: (readAttributes k').1, (readAttributes k').2) := by
  have htail : ∀ c, (before ++ '=' :: (after ++ written)).head? = some c →
      isAttributeNameChar c = false := by
    intro c hc
    cases before with
    | nil =>
        cases hc
        decide
    | cons b before =>
        cases hc
        exact isAttributeNameChar_of_isBlank (hbefore c List.mem_cons_self)
  obtain ⟨hend, htake, hleft⟩ := takeWhile_attributeName hname hk htail
  have hrest : (k.skipBlanks.takeWhile isAttributeNameChar).2.skipBlanks.rest
      = ['='] ++ (after ++ written) := by
    rw [Cursor.rest_skipBlanks, hleft, List.dropWhile_append_of_pos hbefore]
    exact List.dropWhile_cons_of_neg (by decide)
  have hskip := Cursor.skip?_append _ _ hrest
  set k₁ := (k.skipBlanks.takeWhile isAttributeNameChar).2.skipBlanks.advance ['=']
    (after ++ written)
  have hwritten : k₁.skipBlanks.rest = written := by
    rw [Cursor.rest_skipBlanks]
    show (after ++ written).dropWhile isBlank = written
    rw [List.dropWhile_append_of_pos hafter]
    cases written with
    | nil => rfl
    | cons c written => exact List.dropWhile_cons_of_neg (by simp [hhead c rfl])
  obtain ⟨hvalue, hrest'⟩ := hread k₁.skipBlanks hwritten
  refine ⟨(readValue k₁.skipBlanks).2, ?_, ?_⟩
  · rw [Cursor.rest_skipBlanks, hrest']
  · rw [readAttributes_value hend (by rw [htake]; exact hname.1) hskip, htake, hvalue,
      String.ofList_toList]

end

end Token

/-! ### Start tags -/

/-- A value as it is read back from where it was printed. -/
def escapeText (value : String) : String := String.ofList (escapeValue value.toList)

theorem escapeValue_append (cs ds : List Char) :
    escapeValue (cs ++ ds) = escapeValue cs ++ escapeValue ds := List.flatMap_append

theorem escapeValue_quote (cs : List Char) :
    escapeValue ('"' :: cs) = "&quot;".toList ++ escapeValue cs := rfl

theorem escapeValue_cons_of_ne {c : Char} (h : c ≠ '"') (cs : List Char) :
    escapeValue (c :: cs) = c :: escapeValue cs := by
  show (if c == '"' then "&quot;".toList else [c]) ++ escapeValue cs = c :: escapeValue cs
  rw [if_neg (by simpa using h)]
  rfl

/-- A value without quotes is written as it is. -/
theorem escapeValue_eq_self {cs : List Char} (h : '"' ∉ cs) : escapeValue cs = cs := by
  induction cs with
  | nil => rfl
  | cons c cs ih =>
      rw [List.mem_cons, not_or] at h
      rw [escapeValue_cons_of_ne (Ne.symm h.1), ih h.2]

theorem escapeText_eq_self {s : String} (h : '"' ∉ s.toList) : escapeText s = s := by
  unfold escapeText
  rw [escapeValue_eq_self h, String.ofList_toList]

/-- An attribute as it is read back from where it was printed. -/
def Attribute.escaped (attr : Attribute) : Attribute := (attr.1, attr.2.map escapeText)

namespace Closing

/-- What is printed at the end of a start tag. -/
def print : Closing → List Char
  | selfClosing => [' ', '/', '>']
  | normal | void => ['>']

/-- The same without the blank. -/
def mark : Closing → List Char
  | selfClosing => ['/', '>']
  | normal | void => ['>']

theorem dropWhile_print (closing : Closing) (rest : List Char) :
    (closing.print ++ rest).dropWhile isBlank = closing.mark ++ rest := by
  cases closing
  all_goals
    simp [print, mark, show isBlank ' ' = true by decide,
      show isBlank '/' = false by decide, show isBlank '>' = false by decide]

theorem atTagEnd_mark (closing : Closing) (rest : List Char) :
    Token.atTagEnd (closing.mark ++ rest) = true := by
  cases closing <;> rfl

theorem afterChars?_equals_mark (closing : Closing) (rest : List Char) :
    Text.afterChars? ['='] (closing.mark ++ rest) = none := by
  cases closing <;> rfl

end Closing

theorem Element.printStart_eq (e : Element) :
    e.printStart
      = '<' :: e.tag.toList ++ e.attrs.entries.flatMap Attribute.print ++ e.closing.print := by
  unfold printStart Closing.print
  cases e.closing <;> rfl

namespace Token

/-- What is printed for attributes and the end of a start tag. -/
def printRest (attrs : List Attribute) (closing : Closing) (rest : List Char) : List Char :=
  attrs.flatMap Attribute.print ++ (closing.print ++ rest)

theorem printRest_cons (attr : Attribute) (attrs : List Attribute) (closing : Closing)
    (rest : List Char) :
    printRest (attr :: attrs) closing rest = attr.print ++ printRest attrs closing rest := by
  unfold printRest
  rw [List.flatMap_cons, List.append_assoc]

/-- An attribute, and the end of a start tag, cannot go on with the name before it. -/
theorem head?_printRest (attrs : List Attribute) (closing : Closing) (rest : List Char) :
    ∀ c, (printRest attrs closing rest).head? = some c → isAttributeNameChar c = false := by
  intro c hc
  cases attrs with
  | nil =>
      cases closing
      all_goals
        cases hc
        decide
  | cons attr attrs =>
      cases hc
      decide

/-- What is printed for an attribute after its name. -/
def printValue : Option String → List Char
  | none => []
  | some value => '=' :: '"' :: escapeValue value.toList ++ ['"']

theorem print_eq (attr : Attribute) :
    attr.print = ' ' :: attr.1.toList ++ printValue attr.2 := by
  obtain ⟨name, value⟩ := attr
  unfold Attribute.print printValue
  cases value <;> simp

theorem dropWhile_printRest_cons {attr : Attribute} (h : IsAttributeName attr.1)
    (attrs : List Attribute) (closing : Closing) (rest : List Char) :
    (printRest (attr :: attrs) closing rest).dropWhile isBlank
      = attr.1.toList ++ (printValue attr.2 ++ printRest attrs closing rest) := by
  rw [printRest_cons, print_eq, List.append_assoc, List.cons_append,
    List.dropWhile_cons_of_pos (by decide)]
  exact dropWhile_isBlank_name h _

/-- After a bare attribute stands no equals sign. -/
theorem afterChars?_equals_printRest {attrs : List Attribute}
    (h : ∀ attr ∈ attrs, IsAttributeName attr.1) (closing : Closing) (rest : List Char) :
    Text.afterChars? ['='] ((printRest attrs closing rest).dropWhile isBlank) = none := by
  cases attrs with
  | nil =>
      show Text.afterChars? ['='] ((closing.print ++ rest).dropWhile isBlank) = none
      rw [closing.dropWhile_print]
      exact closing.afterChars?_equals_mark rest
  | cons attr attrs =>
      have hattr := h attr List.mem_cons_self
      rw [dropWhile_printRest_cons hattr]
      exact afterChars?_equals_name hattr _

/-- Printed attributes are read back, up to the spelling of quotes.  Whether the blank before
them has been passed over already makes no difference. -/
theorem readAttributes_print {attrs : List Attribute} (h : ∀ attr ∈ attrs, IsAttributeName attr.1)
    (closing : Closing) (rest : List Char) :
    ∀ k : Cursor, k.skipBlanks.rest = (printRest attrs closing rest).dropWhile isBlank →
      (readAttributes k).1 = attrs.map Attribute.escaped ∧
        (readAttributes k).2.rest = closing.mark ++ rest := by
  induction attrs with
  | nil =>
      intro k hk
      have hmark : k.skipBlanks.rest = closing.mark ++ rest :=
        hk.trans (closing.dropWhile_print rest)
      have hend : (k.skipBlanks.atEnd || atTagEnd k.skipBlanks.rest) = true := by
        rw [hmark, closing.atTagEnd_mark, Bool.or_true]
      rw [readAttributes_end hend]
      exact ⟨rfl, hmark⟩
  | cons attr attrs ih =>
      intro k hk
      have hattr := h attr List.mem_cons_self
      have hattrs : ∀ attr ∈ attrs, IsAttributeName attr.1 := fun a ha =>
        h a (List.mem_cons_of_mem _ ha)
      rw [dropWhile_printRest_cons hattr] at hk
      obtain ⟨name, value⟩ := attr
      obtain ⟨k', hk', hread⟩ : ∃ k', k'.skipBlanks.rest
          = (printRest attrs closing rest).dropWhile isBlank ∧ readAttributes k
            = (Attribute.escaped (name, value) :: (readAttributes k').1,
              (readAttributes k').2) := by
        cases value with
        | none =>
            exact readAttributes_name hattr hk (head?_printRest attrs closing rest)
              (afterChars?_equals_printRest hattrs closing rest)
        | some value =>
            have hblanks : ∀ c ∈ ([] : List Char), isBlank c = true := nofun
            refine readAttributes_equals hattr hblanks hblanks hk ?_
              fun k hk => readValue_between (.inl rfl) (not_mem_escapeValue _) ?_
            · intro c hc
              cases hc
              decide
            · rw [hk]
              simp
      obtain ⟨hfst, hsnd⟩ := ih hattrs k' hk'
      rw [hread, hfst]
      exact ⟨rfl, hsnd⟩

/-- The attributes that are read have names of attributes. -/
theorem isAttributeName_of_readAttributes (k : Cursor) :
    ∀ attr ∈ (readAttributes k).1, IsAttributeName attr.1 := by
  fun_induction readAttributes k with
  | case1 k k₀ hend =>
      intro attr hattr
      cases hattr
  | case2 k k₀ hend name hname ih => exact ih
  | case3 k k₀ hend name hname k₁ k₂ hequals value others ih =>
      intro attr hattr
      rcases List.mem_cons.mp hattr with rfl | hattr
      · exact isNameOf_takeWhile fun hc => hname (List.isEmpty_iff.mpr hc)
      · exact ih attr hattr
  | case4 k k₀ hend name hname k₁ hequals others ih =>
      intro attr hattr
      rcases List.mem_cons.mp hattr with rfl | hattr
      · exact isNameOf_takeWhile fun hc => hname (List.isEmpty_iff.mpr hc)
      · exact ih attr hattr

end Token

/-! ### Elements that can be written -/

namespace Attributes

/-- Distinct names, each of which is the name of an attribute. -/
structure WellNamed (attrs : Attributes) : Prop where
  distinct : attrs.Distinct
  names : ∀ name ∈ attrs.names, IsAttributeName name

/-- The attributes as they are read back from where they were printed. -/
def escaped (attrs : Attributes) : Attributes := ⟨attrs.entries.map Attribute.escaped⟩

theorem names_escaped (attrs : Attributes) : attrs.escaped.names = attrs.names := by
  unfold names escaped
  rw [List.map_map]
  rfl

theorem WellNamed.name_of_mem {attrs : Attributes} (h : attrs.WellNamed) :
    ∀ attr ∈ attrs.entries, IsAttributeName attr.1 := fun attr hattr =>
  h.names attr.1 (List.mem_map.mpr ⟨attr, hattr, rfl⟩)

/-- What is read for well named attributes is no longer or shorter as a map. -/
theorem WellNamed.ofEntries_escaped {attrs : Attributes} (h : attrs.WellNamed) :
    ofEntries (attrs.entries.map Attribute.escaped) = attrs.escaped := by
  have hnodup : ((attrs.entries.map Attribute.escaped).map Prod.fst).Nodup := by
    have := h.distinct
    unfold Distinct at this
    rw [← names_escaped] at this
    exact this
  have := entries_ofEntries hnodup
  cases hof : ofEntries (attrs.entries.map Attribute.escaped) with
  | mk entries =>
      rw [hof] at this
      rw [show entries = _ from this]
      rfl

end Attributes

namespace Element

/-- The element as it is read back from where it was printed. -/
def escaped (e : Element) : Element := { e with attrs := e.attrs.escaped }

/-- An element whose start tag can be read. -/
structure Writable (e : Element) : Prop where
  tag : IsTagName e.tag
  attrs : e.attrs.WellNamed
  /-- An element without an end tag is known by its tag or by a slash. -/
  closing : e.closing ≠ .selfClosing → (e.closing = .void ↔ isVoidTag e.tag = true)

end Element

end TemplateCompiler
