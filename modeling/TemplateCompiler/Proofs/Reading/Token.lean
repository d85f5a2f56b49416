/-
What a token is read from, and what it is read back from.

A token that is read has a form: an element can be written, the content of a comment does
not hold the mark that ends it, text is what stood there.  And a token of that form is read
back from what is printed for it, whatever follows; only text asks that what follows be a
tag, or nothing.
-/
import TemplateCompiler.Proofs.Reading.StartTag
import TemplateCompiler.Proofs.Reading.Text

namespace TemplateCompiler

namespace Token

theorem isTagChar_eq_false {c : Char} (h : isAttributeNameChar c = false) :
    isTagChar c = false := by
  by_contra hc
  rw [Bool.not_eq_false] at hc
  rw [isAttributeNameChar_of_isTagChar hc] at h
  cases h

/-- A printed start tag is read back, up to the spelling of quotes. -/
theorem readStartTag_print {e : Element} (he : e.Writable) (start : Nat) {k : Cursor}
    {rest : List Char} (hk : k.rest = e.tag.toList ++ printRest e.attrs.entries e.closing rest) :
    ∃ k', readStartTag start k = .ok (.startTag e.tag e.attrs.escaped e.closing, k') ∧
      k'.rest = rest := by
  obtain ⟨c, cs, hcons, hc⟩ := he.tag.exists_cons
  have hblank : k.skipBlanks.rest = e.tag.toList ++ printRest e.attrs.entries e.closing rest := by
    rw [Cursor.rest_skipBlanks_of_head, hk]
    intro c' hc'
    rw [hk, hcons] at hc'
    cases hc'
    exact isBlank_of_isAttributeNameChar (isAttributeNameChar_of_isTagChar hc)
  have hfollow : ∀ c, (printRest e.attrs.entries e.closing rest).head? = some c →
      isTagChar c = false :=
    fun c hc => isTagChar_eq_false (head?_printRest _ _ _ c hc)
  obtain ⟨htake, hdrop⟩ := takeWhile_name he.tag hfollow
  have hname : (k.skipBlanks.takeWhile isTagChar).1 = e.tag.toList := by
    show k.skipBlanks.rest.takeWhile isTagChar = e.tag.toList
    rw [hblank]
    exact htake
  have hafter : (k.skipBlanks.takeWhile isTagChar).2.rest
      = printRest e.attrs.entries e.closing rest := by
    rw [Cursor.rest_takeWhile, hblank]
    exact hdrop
  have hempty : ¬ (k.skipBlanks.takeWhile isTagChar).1.isEmpty = true := by
    rw [hname, hcons]
    exact Bool.false_ne_true
  obtain ⟨hattrs, hleft⟩ := readAttributes_print he.attrs.name_of_mem e.closing rest
    (k.skipBlanks.takeWhile isTagChar).2 (by rw [Cursor.rest_skipBlanks, hafter])
  unfold readStartTag
  dsimp only
  rw [if_neg hempty, hname, String.ofList_toList, hattrs, he.attrs.ofEntries_escaped]
  cases hclosing : e.closing with
  | selfClosing =>
      rw [hclosing] at hleft
      rw [Cursor.skip?_append ['/', '>'] rest hleft]
      exact ⟨_, rfl, rfl⟩
  | void =>
      rw [hclosing] at hleft
      have hvoid : isVoidTag e.tag = true :=
        (he.closing (by rw [hclosing]; simp)).mp hclosing
      rw [Cursor.skip?_eq_none _ (by rw [hleft]; rfl), Cursor.skip?_append ['>'] rest hleft, hvoid]
      exact ⟨_, rfl, rfl⟩
  | normal =>
      rw [hclosing] at hleft
      have hvoid : isVoidTag e.tag = false := by
        rw [← Bool.not_eq_true]
        intro hv
        have := (he.closing (by rw [hclosing]; simp)).mpr hv
        rw [hclosing] at this
        cases this
      rw [Cursor.skip?_eq_none _ (by rw [hleft]; rfl), Cursor.skip?_append ['>'] rest hleft, hvoid]
      exact ⟨_, rfl, rfl⟩

theorem next_startTag {e : Element} (he : e.Writable) {k : Cursor} {rest : List Char}
    (hk : k.rest = e.printStart ++ rest) :
    ∃ k', next k = .ok (.startTag e.tag e.attrs.escaped e.closing, k') ∧ k'.rest = rest := by
  obtain ⟨c, cs, hcons, hc⟩ := he.tag.exists_cons
  have hrest : k.rest = ['<'] ++ (e.tag.toList ++ printRest e.attrs.entries e.closing rest) := by
    rw [hk, e.printStart_eq]
    unfold printRest
    simp
  have hslash : '/' ≠ c := by
    rintro rfl
    exact absurd hc (by decide)
  have hbang : '!' ≠ c := by
    rintro rfl
    exact absurd hc (by decide)
  have h₁ : k.skip? ['<', '/'] = none :=
    Cursor.skip?_eq_none _ (by rw [hrest, hcons]; simp [Text.afterChars?, hslash])
  have h₂ : k.skip? ['<', '!', '-', '-'] = none :=
    Cursor.skip?_eq_none _ (by rw [hrest, hcons]; simp [Text.afterChars?, hbang])
  unfold next
  rw [h₁, h₂, Cursor.skip?_append _ _ hrest]
  exact readStartTag_print he k.offset rfl

/-- A printed end tag is read back. -/
theorem next_endTag {name : String} (h : IsTagName name) {k : Cursor} {rest : List Char}
    (hk : k.rest = '<' :: '/' :: name.toList ++ '>' :: rest) :
    ∃ k', next k = .ok (.endTag name, k') ∧ k'.rest = rest := by
  obtain ⟨c, cs, hcons, hc⟩ := h.exists_cons
  have hrest : k.rest = ['<', '/'] ++ (name.toList ++ '>' :: rest) := hk
  set k₁ := k.advance ['<', '/'] (name.toList ++ '>' :: rest) with hk₁
  have hblank : k₁.skipBlanks.rest = name.toList ++ '>' :: rest := by
    refine Cursor.rest_skipBlanks_of_head ?_
    intro c' hc'
    rw [show k₁.rest = name.toList ++ '>' :: rest from rfl, hcons] at hc'
    cases hc'
    exact isBlank_of_isAttributeNameChar (isAttributeNameChar_of_isTagChar hc)
  have hfollow : ∀ c, ('>' :: rest).head? = some c → isTagChar c = false := by
    intro c hc
    cases hc
    decide
  obtain ⟨htake, hdrop⟩ := takeWhile_name h hfollow
  have hname : (k₁.skipBlanks.takeWhile isTagChar).1 = name.toList := by
    show k₁.skipBlanks.rest.takeWhile isTagChar = name.toList
    rw [hblank]
    exact htake
  have hafter : (k₁.skipBlanks.takeWhile isTagChar).2.skipBlanks.rest = ['>'] ++ rest := by
    rw [Cursor.rest_skipBlanks_of_head, Cursor.rest_takeWhile, hblank]
    · exact hdrop
    · intro c hc
      rw [Cursor.rest_takeWhile, hblank, hdrop] at hc
      cases hc
      decide
  unfold next
  rw [Cursor.skip?_append _ _ hrest]
  show ∃ k', Except.ok (readEndTag k₁) = .ok (.endTag name, k') ∧ k'.rest = rest
  unfold readEndTag Cursor.skip
  dsimp only
  rw [Cursor.skip?_append _ _ hafter, hname, String.ofList_toList]
  exact ⟨_, rfl, rfl⟩

/-- A printed comment is read back. -/
theorem next_comment {content : String} (h : Text.cutChars ['-', '-', '>'] content.toList = none)
    {k : Cursor} {rest : List Char}
    (hk : k.rest = "<!--".toList ++ content.toList ++ "-->".toList ++ rest) :
    ∃ k', next k = .ok (.comment content, k') ∧ k'.rest = rest := by
  have hrest : k.rest = ['<', '!', '-', '-'] ++ (content.toList ++ ['-', '-', '>'] ++ rest) := by
    rw [hk]
    simp
  have h₁ : k.skip? ['<', '/'] = none := Cursor.skip?_eq_none _ (by rw [hrest]; rfl)
  have hcut : Text.cutChars ['-', '-', '>'] (content.toList ++ ['-', '-', '>'] ++ rest)
      = some (content.toList, rest) := Text.cutChars_append_commentEnd h rest
  unfold next
  rw [h₁, Cursor.skip?_append _ _ hrest]
  dsimp only [Cursor.advance]
  unfold Cursor.takePast
  dsimp only
  rw [hcut]
  dsimp only
  rw [String.ofList_toList]
  exact ⟨_, rfl, rfl⟩

/-- Text is read back where it stops at a tag or everything ends. -/
theorem next_text {content : String} (hne : content.toList ≠ []) {k : Cursor} {rest : List Char}
    (hk : k.rest = content.toList ++ rest)
    (hread : readText false (content.toList ++ rest) = (content.toList, rest)) :
    ∃ k', next k = .ok (.text content, k') ∧ k'.rest = rest := by
  have hhead := head?_ne_of_readText hne hread
  have hskip : ∀ mark, k.skip? ('<' :: mark) = none := by
    intro mark
    refine Cursor.skip?_eq_none _ ?_
    rw [hk]
    cases hcontent : content.toList with
    | nil => exact absurd hcontent hne
    | cons c cs =>
        rw [hcontent] at hhead
        have : '<' ≠ c := by
          rintro rfl
          exact hhead rfl
        simp [Text.afterChars?, this]
  unfold next
  rw [hskip, hskip, hskip]
  dsimp only
  rw [hk, hread]
  dsimp only
  rw [String.ofList_toList]
  exact ⟨_, rfl, rfl⟩

/-! ### What is known of a token that is read -/

/-- An element whose start tag is read can be written. -/
theorem writable_of_readStartTag {start : Nat} {k k' : Cursor} {tag : String} {attrs : Attributes}
    {closing : Closing} (h : readStartTag start k = .ok (.startTag tag attrs closing, k')) :
    Element.Writable ⟨tag, attrs, closing⟩ := by
  unfold readStartTag at h
  dsimp only at h
  split at h
  · cases h
  · rename_i hname
    have htag : IsTagName (String.ofList (k.skipBlanks.takeWhile isTagChar).1) :=
      isNameOf_takeWhile fun hc => hname (List.isEmpty_iff.mpr hc)
    have hattrs : Attributes.WellNamed
        (.ofEntries (readAttributes (k.skipBlanks.takeWhile isTagChar).2).1) := by
      refine ⟨Attributes.distinct_ofEntries _, fun n hn => ?_⟩
      rw [Attributes.mem_names_ofEntries] at hn
      obtain ⟨attr, hattr, rfl⟩ := List.mem_map.mp hn
      exact isAttributeName_of_readAttributes _ attr hattr
    split at h
    · cases h
      exact ⟨htag, hattrs, fun hc => absurd rfl hc⟩
    · split at h
      · cases h
        refine ⟨htag, hattrs, fun _ => ?_⟩
        dsimp only
        split
        · rename_i hvoid
          exact ⟨fun _ => hvoid, fun _ => rfl⟩
        · rename_i hvoid
          exact ⟨fun hc => (nomatch hc), fun hc => absurd hc hvoid⟩
      · cases h

theorem readStartTag_eq_startTag {start : Nat} {k k' : Cursor} {t : Token}
    (h : readStartTag start k = .ok (t, k')) :
    ∃ tag attrs closing, t = .startTag tag attrs closing := by
  unfold readStartTag at h
  dsimp only at h
  split at h
  · cases h
  · split at h
    · cases h
      exact ⟨_, _, _, rfl⟩
    · split at h
      · cases h
        exact ⟨_, _, _, rfl⟩
      · cases h

theorem writable_of_next {k k' : Cursor} {tag : String} {attrs : Attributes} {closing : Closing}
    (h : next k = .ok (.startTag tag attrs closing, k')) :
    Element.Writable ⟨tag, attrs, closing⟩ := by
  unfold next at h
  split at h
  · cases h
  · split at h
    · cases h
    · split at h
      · exact writable_of_readStartTag h
      · cases h

/-- The content of a comment that is read does not hold the mark of its end. -/
theorem cutChars_of_next_comment {k k' : Cursor} {content : String}
    (h : next k = .ok (.comment content, k')) :
    Text.cutChars ['-', '-', '>'] content.toList = none := by
  unfold next at h
  split at h
  · cases h
  · split at h
    · rename_i k₁ hskip
      cases h
      rw [String.toList_ofList]
      unfold Cursor.takePast
      split
      · rename_i before after hcut
        exact Text.cutChars_eq_none_of_cutChars (by simp) hcut
      · rename_i hcut
        exact hcut
    · split at h
      · obtain ⟨tag, attrs, closing, heq⟩ := readStartTag_eq_startTag h
        cases heq
      · cases h

/-- Text that is read is what stood there, and stops at a tag or where everything ends. -/
theorem readText_of_next {k k' : Cursor} {content : String} (hk : k.rest ≠ [])
    (h : next k = .ok (.text content, k')) :
    content.toList ≠ [] ∧ readText false k.rest = (content.toList, k'.rest) := by
  have hlt := length_next_lt hk h
  unfold next at h
  split at h
  · cases h
  · split at h
    · cases h
    · split at h
      · obtain ⟨tag, attrs, closing, heq⟩ := readStartTag_eq_startTag h
        cases heq
      · cases h
        rw [String.toList_ofList]
        refine ⟨?_, rfl⟩
        intro hnil
        have heq := (readText_eq (Prod.ext hnil rfl : readText false k.rest = ([], _))).1
        have hlen := congrArg List.length heq
        rw [List.nil_append] at hlen
        exact Nat.lt_irrefl _ (Nat.lt_of_lt_of_eq hlt hlen)

end Token

end TemplateCompiler
