/-
The ways to write a start tag.

An attribute is bare, or its value stands after an equals sign: between quotes of one kind, if
that quote is not in it, or without quotes, if nothing in it could end it.  Blanks may stand around
the equals sign and must stand before each attribute and before the end of the tag.  However the
attributes are written, the same names and values are read, because each form tells where it ends:
a quoted value at its quote, a bare one at a blank, a name at an equals sign or at a blank.  That
a blank comes next is the one thing a form needs to know of what follows it.
-/
import TemplateCompiler.Proofs.Tiling

namespace TemplateCompiler

/-- A text of blanks. -/
def AllBlank (cs : List Char) : Prop := ∀ c ∈ cs, isBlank c = true

instance (cs : List Char) : Decidable (AllBlank cs) :=
  decidable_of_iff (cs.all isBlank = true) List.all_eq_true

/-- `Gives value cs` says that a name with `cs` after it has the value. -/
inductive Gives : Option String → List Char → Prop
  | bare : Gives none []
  | quoted {value : String} {quote : Char} {before after : List Char}
      (hquote : quote = '"' ∨ quote = '\'') (hvalue : quote ∉ value.toList)
      (hbefore : AllBlank before) (hafter : AllBlank after) :
      Gives (some value) (before ++ '=' :: (after ++ quote :: (value.toList ++ [quote])))
  | unquoted {value : String} {before after : List Char} (hne : value.toList ≠ [])
      (hblank : ∀ c ∈ value.toList, isBlank c = false) (hclose : '>' ∉ value.toList)
      (hquote : ∀ c, value.toList.head? = some c → c ≠ '"' ∧ c ≠ '\'')
      (hbefore : AllBlank before) (hafter : AllBlank after) :
      Gives (some value) (before ++ '=' :: (after ++ value.toList))

/-- `Lists attrs cs` says that `cs` is the attributes one after the other, each in one of its
forms and with a blank before it. -/
inductive Lists : List Attribute → List Char → Prop
  | nil : Lists [] []
  | cons {name : String} {value : Option String} {attrs : List Attribute}
      {blanks given others : List Char} (hne : blanks ≠ []) (hblanks : AllBlank blanks)
      (hname : IsAttributeName name) (hgiven : Gives value given) (h : Lists attrs others) :
      Lists ((name, value) :: attrs) (blanks ++ (name.toList ++ (given ++ others)))

/-- How a start tag ends. -/
def tagMark (slash : Bool) : List Char := if slash then ['/', '>'] else ['>']

/-- What its end says of the element. -/
def closingOf (tag : String) (slash : Bool) : Closing :=
  if slash then .selfClosing else if isVoidTag tag then .void else .normal

/-- The start tag `cs` has the name, the attributes and the end. -/
inductive SpellsTag (tag : String) (attrs : List Attribute) (slash : Bool) : List Char → Prop
  | mk {written blanks : List Char} (htag : IsTagName tag) (hattrs : Lists attrs written)
      (hne : blanks ≠ []) (hblanks : AllBlank blanks) :
      SpellsTag tag attrs slash ('<' :: (tag.toList ++ (written ++ (blanks ++ tagMark slash))))

namespace Token

/-! ### Values -/

/-- A value without quotes is read up to the blank after it. -/
theorem readBareValue_append_blank {value rest : List Char} {c : Char}
    (hblank : ∀ c ∈ value, isBlank c = false) (hclose : '>' ∉ value) (hc : isBlank c = true) :
    readBareValue (value ++ c :: rest) = (value, c :: rest) := by
  have hne : c ≠ '>' := by
    rintro rfl
    exact absurd hc (by decide)
  induction value with
  | nil => simp [readBareValue, hc]
  | cons d value ih =>
      have hd : d ≠ '>' := fun h => hclose (h ▸ List.mem_cons_self)
      have hnext : (value ++ c :: rest).head? ≠ some '>' := by
        cases value with
        | nil => simpa using hne
        | cons e value =>
            have he : e ≠ '>' := fun h => hclose (h ▸ by simp)
            simpa using he
      have hread := ih (fun e he => hblank e (List.mem_cons_of_mem d he))
        (fun h => hclose (List.mem_cons_of_mem d h))
      have hgoes : ¬ (isBlank d || d == '>' ||
          (d == '/' && (value ++ c :: rest).head? == some '>')) = true := by
        rw [hblank d List.mem_cons_self, beq_eq_false_iff_ne.mpr hd,
          beq_eq_false_iff_ne.mpr hnext, Bool.and_false]
        exact Bool.false_ne_true
      rw [List.cons_append, readBareValue, if_neg hgoes, hread]

theorem readValue_unquoted {k : Cursor} {value rest : List Char} {c : Char} (hne : value ≠ [])
    (hblank : ∀ c ∈ value, isBlank c = false) (hclose : '>' ∉ value)
    (hquote : ∀ c, value.head? = some c → c ≠ '"' ∧ c ≠ '\'') (hc : isBlank c = true)
    (hk : k.rest = value ++ c :: rest) :
    (readValue k).1 = value ∧ (readValue k).2.rest = c :: rest := by
  obtain ⟨d, cs, rfl⟩ := List.exists_cons_of_ne_nil hne
  obtain ⟨hdouble, hsingle⟩ := hquote d rfl
  have hread : readValue k = ((readBareValue k.rest).1,
      k.advance (readBareValue k.rest).1 (readBareValue k.rest).2) := by
    unfold readValue
    split
    · rename_i heq
      rw [hk, List.cons_append, List.cons.injEq] at heq
      exact absurd heq.1 hdouble
    · rename_i heq
      rw [hk, List.cons_append, List.cons.injEq] at heq
      exact absurd heq.1 hsingle
    · rfl
  rw [hread, hk, readBareValue_append_blank hblank hclose hc]
  exact ⟨rfl, rfl⟩

/-! ### Attributes -/

/-- In whatever form an attribute is written, its name and its value are read, where a blank
follows. -/
theorem readAttributes_gives {name : String} {value : Option String} {given : List Char}
    (hname : IsAttributeName name) (hgiven : Gives value given) {tail : List Char}
    (htail : ∃ c rest, tail = c :: rest ∧ isBlank c = true)
    (hequals : Text.afterChars? ['='] (tail.dropWhile isBlank) = none) {k : Cursor}
    (hk : k.skipBlanks.rest = name.toList ++ (given ++ tail)) :
    ∃ k', k'.skipBlanks.rest = tail.dropWhile isBlank ∧
      readAttributes k = ((name, value) :: (readAttributes k').1, (readAttributes k').2) := by
  obtain ⟨c, rest, rfl, hc⟩ := htail
  cases hgiven with
  | bare =>
      refine readAttributes_name hname hk (fun d hd => ?_) hequals
      cases hd
      exact isAttributeNameChar_of_isBlank hc
  | @quoted value quote before after hquote hvalue hbefore hafter =>
      simp only [List.append_assoc, List.cons_append, List.nil_append] at hk
      have hread := readAttributes_equals hname hbefore hafter hk (fun d hd => ?_)
        fun k hk => readValue_between hquote hvalue hk
      · rwa [String.ofList_toList] at hread
      · cases hd
        rcases hquote with rfl | rfl <;> decide
  | @unquoted value before after hne hblank hclose hquote hbefore hafter =>
      simp only [List.append_assoc, List.cons_append] at hk
      have hread := readAttributes_equals hname hbefore hafter hk (fun d hd => ?_)
        fun k hk => readValue_unquoted hne hblank hclose hquote hc hk
      · rwa [String.ofList_toList] at hread
      · rw [List.head?_append_of_ne_nil _ hne] at hd
        exact hblank d (List.mem_of_mem_head? hd)

/-- What follows the attributes: blanks, the end of the tag and the rest. -/
structure Ends (tail mark rest : List Char) : Prop where
  atEnd : atTagEnd (mark ++ rest) = true
  dropWhile : tail.dropWhile isBlank = mark ++ rest
  equals : Text.afterChars? ['='] (mark ++ rest) = none
  blank : ∃ c more, tail = c :: more ∧ isBlank c = true

theorem exists_cons_of_blanks {blanks : List Char} (hne : blanks ≠ []) (hblanks : AllBlank blanks)
    (rest : List Char) : ∃ c more, blanks ++ rest = c :: more ∧ isBlank c = true := by
  obtain ⟨c, cs, rfl⟩ := List.exists_cons_of_ne_nil hne
  exact ⟨c, cs ++ rest, rfl, hblanks c List.mem_cons_self⟩

theorem ends_tagMark (slash : Bool) {blanks : List Char} (hne : blanks ≠ [])
    (hblanks : AllBlank blanks) (rest : List Char) :
    Ends (blanks ++ (tagMark slash ++ rest)) (tagMark slash) rest where
  atEnd := by cases slash <;> rfl
  dropWhile := by
    rw [List.dropWhile_append_of_pos hblanks]
    cases slash with
    | false => exact List.dropWhile_cons_of_neg (by decide)
    | true => exact List.dropWhile_cons_of_neg (by decide)
  equals := by cases slash <;> rfl
  blank := exists_cons_of_blanks hne hblanks _

/-- After the blanks before it, a listed attribute or the end of the tag comes first; neither
begins with an equals sign. -/
theorem follows_lists {attrs : List Attribute} {written tail mark rest : List Char}
    (h : Lists attrs written) (hends : Ends tail mark rest) :
    (∃ c more, written ++ tail = c :: more ∧ isBlank c = true) ∧
      Text.afterChars? ['='] ((written ++ tail).dropWhile isBlank) = none := by
  cases h with
  | nil => exact ⟨hends.blank, by rw [List.nil_append, hends.dropWhile]; exact hends.equals⟩
  | @cons name value attrs blanks given others hne hblanks hname hgiven h =>
      refine ⟨?_, ?_⟩
      · rw [List.append_assoc]
        exact exists_cons_of_blanks hne hblanks _
      · rw [List.append_assoc, List.dropWhile_append_of_pos hblanks, List.append_assoc,
          dropWhile_isBlank_name hname]
        exact afterChars?_equals_name hname _

/-- In whatever forms the attributes are written, they are read. -/
theorem readAttributes_lists {attrs : List Attribute} {written tail mark rest : List Char}
    (h : Lists attrs written) (hends : Ends tail mark rest) :
    ∀ k : Cursor, k.skipBlanks.rest = (written ++ tail).dropWhile isBlank →
      (readAttributes k).1 = attrs ∧ (readAttributes k).2.rest = mark ++ rest := by
  induction h with
  | nil =>
      intro k hk
      rw [List.nil_append, hends.dropWhile] at hk
      have hend : (k.skipBlanks.atEnd || atTagEnd k.skipBlanks.rest) = true := by
        rw [hk, hends.atEnd, Bool.or_true]
      rw [readAttributes_end hend]
      exact ⟨rfl, hk⟩
  | @cons name value attrs blanks given others hne hblanks hname hgiven h ih =>
      intro k hk
      rw [List.append_assoc, List.dropWhile_append_of_pos hblanks, List.append_assoc,
        dropWhile_isBlank_name hname, List.append_assoc] at hk
      obtain ⟨hblank, hequals⟩ := follows_lists h hends
      obtain ⟨k', hk', hread⟩ := readAttributes_gives hname hgiven hblank hequals hk
      obtain ⟨hfst, hsnd⟩ := ih k' hk'
      rw [hread, hfst]
      exact ⟨rfl, hsnd⟩

/-! ### The whole tag -/

variable {tag : String} {attrs : List Attribute} {slash : Bool} {text : List Char}

/-- A spelled start tag begins as one, and its attributes are those that are listed. -/
theorem exists_namesTag (htag : IsTagName tag) {written tail mark rest : List Char}
    (hattrs : Lists attrs written) (hends : Ends tail mark rest) (offset : Nat) :
    ∃ k', NamesTag ⟨offset, '<' :: (tag.toList ++ (written ++ tail))⟩ tag.toList attrs k' ∧
      k'.rest = mark ++ rest := by
  obtain ⟨c, cs, hname, hc⟩ := htag.exists_cons
  obtain ⟨⟨b, more, htail, hb⟩, -⟩ := follows_lists hattrs hends
  have hcblank := isBlank_of_isAttributeNameChar (isAttributeNameChar_of_isTagChar hc)
  have hnot : ∀ d, isTagChar d = false → ∀ ds,
      ¬ '<' :: d :: ds <+: '<' :: (tag.toList ++ (written ++ tail)) := by
    rintro d hd ds ⟨after, hafter⟩
    rw [hname] at hafter
    simp only [List.cons_append, List.cons.injEq, true_and] at hafter
    rw [hafter.1, hc] at hd
    cases hd
  obtain ⟨hread, hrest⟩ := readAttributes_lists hattrs hends
    (Cursor.advance ⟨offset, '<' :: (tag.toList ++ (written ++ tail))⟩
      (['<'] ++ [] ++ tag.toList) (written ++ tail)) rfl
  refine ⟨_, ⟨htag.1, [], written ++ tail,
    ⟨rfl, hnot '/' (by decide) [], hnot '!' (by decide) _, ?_⟩, ?_, Prod.ext hread rfl⟩, hrest⟩
  · refine ⟨nofun, fun d hd => ?_⟩
    rw [hname] at hd
    cases hd
    exact hcblank
  · refine ⟨htag.2, fun d hd => ?_⟩
    rw [htail] at hd
    cases hd
    exact isTagChar_eq_false (isAttributeNameChar_of_isBlank hb)

/-- A start tag is read from where it stands, in whatever way it is written. -/
theorem next_spelled (h : SpellsTag tag attrs slash text) (offset : Nat) (rest : List Char) :
    next ⟨offset, text ++ rest⟩ = .ok (.startTag tag (.ofEntries attrs) (closingOf tag slash),
      ⟨offset + byteLength text, rest⟩) := by
  obtain @⟨written, blanks, htag, hattrs, hne, hblanks⟩ := h
  obtain ⟨k', hnames, hrest⟩ :=
    exists_namesTag htag hattrs (ends_tagMark slash hne hblanks rest) offset
  have htext : '<' :: (tag.toList ++ (written ++ (blanks ++ tagMark slash))) ++ rest
      = '<' :: (tag.toList ++ (written ++ (blanks ++ (tagMark slash ++ rest)))) := by
    simp only [List.cons_append, List.append_assoc]
  rw [htext]
  -- What is taken is what is written, so the offset is known.
  obtain ⟨inner, htakes⟩ := hnames.exists_takes
  have hall := htakes.trans (Cursor.takes_advance hrest)
  have hpiece : '<' :: inner ++ tagMark slash
      = '<' :: (tag.toList ++ (written ++ (blanks ++ tagMark slash))) := by
    have heq := hall.1
    rw [← htext] at heq
    exact (List.append_cancel_right heq).symm
  have hcursor : k'.advance (tagMark slash) rest = ⟨offset + byteLength
      ('<' :: (tag.toList ++ (written ++ (blanks ++ tagMark slash)))), rest⟩ := by
    rw [← hpiece, ← hall.2]
    rfl
  rw [← hcursor]
  cases slash with
  | true =>
      have hnext := (Stands.selfClosing hnames hrest).next_eq
      rw [String.ofList_toList] at hnext
      exact hnext
  | false =>
      have hnext := (Stands.startTag hnames hrest).next_eq
      rw [String.ofList_toList] at hnext
      exact hnext

end Token

/-- The element that a start tag with these parts begins. -/
def spelledElement (tag : String) (attrs : List Attribute) (slash : Bool) : Element :=
  ⟨tag, .ofEntries attrs, closingOf tag slash⟩

/-- The end tag, if the element needs one. -/
def endText (tag : String) (slash : Bool) : List Char :=
  if closingOf tag slash = .normal then '<' :: '/' :: tag.toList ++ ['>'] else []

namespace Document

variable {tag : String} {attrs : List Attribute} {slash : Bool} {text : List Char} {d : Document}

theorem Written.exists_startTag {before after piece : List Char} {e : Element} {children : List Nat}
    (h : d.Written before after (.element e) children piece) :
    ∃ tag rest, piece ++ after = tag ++ rest ∧ e.StartTag before tag rest := by
  cases h with
  | leaf hclosing htag => exact ⟨piece, after, rfl, htag⟩
  | nest hclosing hopening hchildren hend =>
      refine ⟨_, _, ?_, hopening⟩
      simp only [List.append_assoc]

/-- Every element of a parsed template has its start tag where its slice begins. -/
theorem exists_startTag_of_parse {source : String} (h : parse source = .ok d) {id : Nat}
    {e : Element} (he : d.element? id = some e) :
    ∃ before tag rest, source.toList = before ++ (tag ++ rest) ∧
      (d.spanOf id).start = byteLength before ∧ e.StartTag before tag rest := by
  rw [element?_eq] at he
  obtain ⟨s, hs, hkind⟩ := Option.bind_eq_some_iff.mp he
  have hid : id < d.size := lt_size_iff.mpr (by rw [hs]; rfl)
  obtain ⟨s', hs', before, piece, after, hsource, -, hspan, hwritten⟩ := standsIn_of_parse h hid
  cases hs.symm.trans hs'
  obtain ⟨kind, parent, children⟩ := s
  cases kind with
  | text content => cases hkind
  | comment content => cases hkind
  | element _ =>
      cases hkind
      obtain ⟨tag, rest, hpiece, htag⟩ := hwritten.exists_startTag
      refine ⟨before, tag, rest, ?_, by rw [hspan], htag⟩
      rw [hsource, List.append_assoc, hpiece]

/-- Where an element of a parsed template begins with a spelled start tag, it is that element. -/
theorem element_of_spelled (h : SpellsTag tag attrs slash text) {before rest : List Char}
    (hparse : parse (.ofList (before ++ text ++ rest)) = .ok d) {id : Nat} {e : Element}
    (he : d.element? id = some e) (hstart : (d.spanOf id).start = byteLength before) :
    e = spelledElement tag attrs slash := by
  obtain ⟨before', opening, after, hsource, hstart', hopening⟩ :=
    exists_startTag_of_parse hparse he
  rw [String.toList_ofList, List.append_assoc] at hsource
  obtain ⟨rfl, htext⟩ := append_inj_of_byteLength hsource (hstart.symm.trans hstart')
  have hread := hopening.read
  rw [← htext, Token.next_spelled h] at hread
  simp only [Except.ok.injEq, Prod.mk.injEq, Token.startTag.injEq] at hread
  obtain ⟨⟨htag, hattrs, hclosing⟩, -⟩ := hread
  rw [spelledElement, hclosing, hattrs, htag]

/-- A spelled start tag, with its end tag if it needs one, is a template of one element. -/
theorem parse_spelled (h : SpellsTag tag attrs slash text) :
    ∃ d, parse (.ofList (text ++ endText tag slash)) = .ok d ∧ d.size = 1 ∧
      d.element? 0 = some (spelledElement tag attrs slash) := by
  have htag : IsTagName tag := by
    cases h
    assumption
  have hstart : Cursor.ofText (.ofList (text ++ endText tag slash))
      = ⟨0, text ++ endText tag slash⟩ := by
    unfold Cursor.ofText
    rw [String.toList_ofList]
  have hne : text ++ endText tag slash ≠ [] := by
    cases h
    exact List.cons_ne_nil _ _
  set inner := empty.push none (.element (spelledElement tag attrs slash)) ⟨0, 0 + byteLength text⟩
    with hinner
  have helement : inner.element? 0 = some (spelledElement tag attrs slash) := by
    rw [element?_eq, hinner, shape?_push]
    rfl
  rw [parse_eq, hstart, contentOf_token hne (Token.next_spelled h 0 _)]
  dsimp only [Option.map_none]
  rw [← spelledElement, ← hinner]
  by_cases hclosing : closingOf tag slash = .normal
  · have hrest : (⟨0 + byteLength text, endText tag slash⟩ : Cursor).rest
        = '<' :: '/' :: tag.toList ++ '>' :: [] := if_pos hclosing
    obtain ⟨k, hend, hk⟩ := Token.next_endTag htag hrest
    have hcontent : contentOf (some ⟨empty.size, tag, ⟨0, 0 + byteLength text⟩⟩) inner
        ⟨0 + byteLength text, endText tag slash⟩ = .ok (inner.setStop 0 k.offset, k) := by
      rw [contentOf_token (hrest ▸ List.cons_ne_nil _ _) hend]
      exact if_pos BEq.rfl
    refine ⟨inner.setStop 0 k.offset, ?_, by rw [size_setStop]; rfl, ?_⟩
    · rw [if_pos hclosing, hcontent]
      dsimp only
      rw [contentOf_nil hk]
      rfl
    · rw [element?_eq, shape?_setStop, ← element?_eq]
      exact helement
  · refine ⟨inner, ?_, rfl, helement⟩
    rw [if_neg hclosing, contentOf_nil (if_neg hclosing)]
    rfl

/-- In whatever way a start tag is written, wherever it stands, it is read as the same element: a
name that is given twice has its first place and its last value, and the end of the tag and the
tag's name tell how it closes. -/
theorem startTag_forms (h : SpellsTag tag attrs slash text) (before rest : List Char) :
    Token.next ⟨byteLength before, text ++ rest⟩
        = .ok (.startTag tag (.ofEntries attrs) (closingOf tag slash),
          ⟨byteLength (before ++ text), rest⟩) ∧
      (∀ d id e, parse (.ofList (before ++ text ++ rest)) = .ok d → d.element? id = some e →
        (d.spanOf id).start = byteLength before → e = spelledElement tag attrs slash) ∧
      (∃ d, parse (.ofList (text ++ endText tag slash)) = .ok d ∧ d.size = 1 ∧
        d.element? 0 = some (spelledElement tag attrs slash)) ∧
      (Attributes.ofEntries attrs).entries = (attrs.map Prod.fst).eraseDups.map fun name =>
        (name, Attributes.lastValue attrs name) := by
  refine ⟨?_, fun d id e hparse he hstart => element_of_spelled h hparse he hstart,
    parse_spelled h, Attributes.entries_ofEntries_eq attrs⟩
  rw [byteLength_append]
  exact Token.next_spelled h _ rest

/-- All forms in one tag, with a name that is given twice. -/
theorem startTag_forms_mixed :
    let attrs := [("v-else", none), ("a", some "x\"y"), ("b", some "</>\n"), ("a", some "/x")]
    let text := "<Br v-else a = 'x\"y'\tb=\"</>\n\" a=/x >".toList
    SpellsTag "Br" attrs false text ∧ closingOf "Br" false = .void ∧
      (Attributes.ofEntries attrs).entries
        = [("v-else", none), ("a", some "/x"), ("b", some "</>\n")] ∧
      Token.next ⟨3, text ++ ['z']⟩
        = .ok (.startTag "Br" (.ofEntries attrs) (closingOf "Br" false), ⟨39, ['z']⟩) := by
  intro attrs text
  have htext : text = '<' :: ("Br".toList ++ (([' '] ++ ("v-else".toList ++ ([] ++
      ([' '] ++ ("a".toList ++ (([' '] ++ '=' :: ([' '] ++ '\'' :: ("x\"y".toList ++ ['\'']))) ++
      (['\t'] ++ ("b".toList ++ (([] ++ '=' :: ([] ++ '"' :: ("</>\n".toList ++ ['"']))) ++
      ([' '] ++ ("a".toList ++ (([] ++ '=' :: ([] ++ "/x".toList)) ++ [])))))))))))) ++
      ([' '] ++ tagMark false))) := by decide
  have h : SpellsTag "Br" attrs false text := by
    rw [htext]
    refine .mk (by decide) ?_ (by simp) (by decide)
    refine .cons (by simp) (by decide) (by decide) .bare ?_
    refine .cons (by simp) (by decide) (by decide)
      (.quoted (.inr rfl) (by decide) (by decide) (by decide)) ?_
    refine .cons (by simp) (by decide) (by decide)
      (.quoted (.inl rfl) (by decide) (by decide) (by decide)) ?_
    refine .cons (by simp) (by decide) (by decide)
      (.unquoted (by decide) (fun c hc => ?_) (by decide) (fun c hc => ?_) (by decide)
        (by decide)) .nil
    · rcases List.mem_pair.mp hc with rfl | rfl <;> decide
    · cases hc
      decide
  obtain ⟨hnext, -, -, hentries⟩ := startTag_forms h "<p>".toList ['z']
  refine ⟨h, by decide, hentries.trans (by decide), ?_⟩
  have hlength : byteLength ("<p>".toList ++ text) = 39 := by decide
  rw [hlength] at hnext
  exact hnext

end Document

end TemplateCompiler
