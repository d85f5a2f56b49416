/-
Texts in which quotes are spelled out.

A double quote in a value is printed as `&quot;`, and what is read back holds these six
characters.  Most of what adapters do to a text does not notice: none of the six is a blank, a
bracket, a brace or a character of words that matter, and the one at either end is as good as
the quote.  So trimming, cutting at a mark, quoting and looking for lengths commute with
spelling quotes out.

Two things do notice.  A loop is taken apart by a scan that skips what stands in quotes, so
its quotes must stand after the keyword.  And semicolons can be taken off the end of a style only
if no quote stands before them, because `&quot;` ends with one.
-/
import TemplateCompiler.Proofs.Dialects
import TemplateCompiler.Proofs.Interpolations

namespace TemplateCompiler

/-! ### Characters -/

/-- What is said of a text whose quotes are spelled out is said of quotes and of all else. -/
theorem escapeValue_cons_cases {P : Char → List Char → List Char → Prop}
    (hquote : ∀ cs, P '"' cs ("&quot;".toList ++ escapeValue cs))
    (hother : ∀ c cs, c ≠ '"' → P c cs (c :: escapeValue cs)) (c : Char) (cs : List Char) :
    P c cs (escapeValue (c :: cs)) := by
  by_cases hc : c = '"'
  · subst hc
    exact hquote cs
  · rw [escapeValue_cons_of_ne hc]
    exact hother c cs hc

theorem escapeValue_eq_nil_iff {cs : List Char} : escapeValue cs = [] ↔ cs = [] := by
  cases cs with
  | nil => exact Iff.rfl
  | cons c cs =>
      refine iff_of_false ?_ (List.cons_ne_nil c cs)
      exact escapeValue_cons_cases (P := fun _ _ spelled => spelled ≠ [])
        (fun _ => by simp) (fun _ _ _ => by simp) c cs

theorem isEmpty_escapeValue (cs : List Char) : (escapeValue cs).isEmpty = cs.isEmpty := by
  rw [Bool.eq_iff_iff, List.isEmpty_iff, List.isEmpty_iff, escapeValue_eq_nil_iff]

/-- Spelling quotes out a second time does nothing. -/
theorem escapeValue_escapeValue (cs : List Char) : escapeValue (escapeValue cs) = escapeValue cs :=
  escapeValue_eq_self (Token.not_mem_escapeValue cs)

theorem escapeText_escapeText (s : String) : escapeText (escapeText s) = escapeText s := by
  unfold escapeText
  rw [String.toList_ofList, escapeValue_escapeValue]

theorem toList_escapeText (s : String) : (escapeText s).toList = escapeValue s.toList :=
  String.toList_ofList

theorem escapeText_append (s t : String) : escapeText (s ++ t) = escapeText s ++ escapeText t := by
  rw [← String.toList_inj, String.toList_append, toList_escapeText, toList_escapeText,
    toList_escapeText, String.toList_append, escapeValue_append]

theorem escapeText_ofList (cs : List Char) :
    escapeText (String.ofList cs) = String.ofList (escapeValue cs) := by
  unfold escapeText
  rw [String.toList_ofList]

theorem isEmpty_escapeText (s : String) : (escapeText s).isEmpty = s.isEmpty := by
  rw [Bool.eq_iff_iff, String.isEmpty_iff, String.isEmpty_iff, ← String.toList_inj,
    toList_escapeText, ← String.toList_inj]
  exact escapeValue_eq_nil_iff

theorem escapeValue_intercalate {separator : List Char} (h : '"' ∉ separator)
    (parts : List (List Char)) :
    escapeValue (separator.intercalate parts) = separator.intercalate (parts.map escapeValue) := by
  induction parts with
  | nil => rfl
  | cons part parts ih =>
      cases parts with
      | nil => simp
      | cons next parts =>
          rw [List.intercalate_cons_cons, escapeValue_append, escapeValue_append, ih,
            escapeValue_eq_self h]
          exact List.intercalate_cons_cons.symm

theorem escapeText_intercalate {separator : String} (h : '"' ∉ separator.toList)
    (parts : List String) :
    escapeText (separator.intercalate parts) = separator.intercalate (parts.map escapeText) := by
  rw [← String.toList_inj, toList_escapeText, String.toList_intercalate, String.toList_intercalate,
    escapeValue_intercalate h, List.map_map, List.map_map]
  exact congrArg _ (List.map_congr_left fun part _ => (toList_escapeText part).symm)

namespace Text

/-! ### Trimming -/

section

variable {p : Char → Bool}

/-- A stretch at the front that neither a quote nor what it is spelled with belongs to. -/
theorem span_escapeValue (hquote : p '"' = false) (hspelled : p '&' = false) (cs : List Char) :
    (escapeValue cs).takeWhile p = cs.takeWhile p ∧
      (escapeValue cs).dropWhile p = escapeValue (cs.dropWhile p) := by
  induction cs with
  | nil => exact ⟨rfl, rfl⟩
  | cons c cs ih =>
      by_cases hc : c = '"'
      · subst hc
        have hcons : escapeValue ('"' :: cs) = '&' :: ("quot;".toList ++ escapeValue cs) := rfl
        have hneg : ¬ p '"' = true := by simp [hquote]
        have hneg' : ¬ p '&' = true := by simp [hspelled]
        rw [List.takeWhile_cons_of_neg hneg, List.dropWhile_cons_of_neg hneg, hcons,
          List.takeWhile_cons_of_neg hneg', List.dropWhile_cons_of_neg hneg']
        exact ⟨rfl, rfl⟩
      · rw [escapeValue_cons_of_ne hc]
        by_cases hp : p c = true
        · rw [List.takeWhile_cons_of_pos hp, List.takeWhile_cons_of_pos hp,
            List.dropWhile_cons_of_pos hp, List.dropWhile_cons_of_pos hp, ih.1, ih.2]
          exact ⟨rfl, rfl⟩
        · rw [List.takeWhile_cons_of_neg hp, List.takeWhile_cons_of_neg hp,
            List.dropWhile_cons_of_neg hp, List.dropWhile_cons_of_neg hp, escapeValue_cons_of_ne hc]
          exact ⟨rfl, rfl⟩

/-- What is taken off the end, where a quote does not become the end of what is left or, if it does,
its spelling ends with nothing that is taken off as well. -/
theorem dropEndWhile_escapeValue (hquote : p '"' = false) {cs : List Char}
    (h : p ';' = true → (dropEndWhile p cs).getLast? ≠ some '"') :
    dropEndWhile p (escapeValue cs) = escapeValue (dropEndWhile p cs) := by
  induction cs using List.reverseRecOn with
  | nil => rfl
  | append_singleton cs c ih =>
      rw [dropEndWhile_concat] at h ⊢
      rw [escapeValue_append]
      by_cases hp : p c = true
      · have hc : c ≠ '"' := by
          rintro rfl
          rw [hquote] at hp
          cases hp
        rw [if_pos hp] at h ⊢
        rw [escapeValue_cons_of_ne hc, ← ih h]
        exact (dropEndWhile_concat p _ c).trans (if_pos hp)
      · rw [if_neg hp] at h ⊢
        rw [escapeValue_append]
        by_cases hc : c = '"'
        · subst hc
          have hsemicolon : p ';' = false := by
            rw [← Bool.not_eq_true]
            exact fun hp => h hp (by simp)
          have hspelled : escapeValue ['"'] = "&quot".toList ++ [';'] := rfl
          rw [hspelled, ← List.append_assoc]
          exact dropEndWhile_append_of_neg _ hsemicolon
        · rw [escapeValue_cons_of_ne hc]
          exact dropEndWhile_append_of_neg _ (Bool.not_eq_true _ ▸ hp)

end

/-- Neither a quote nor what it is spelled with is a blank. -/
theorem isBlank_quote : isBlank '"' = false ∧ isBlank '&' = false ∧ isBlank ';' = false := by decide

theorem trimEndChars_escapeValue (cs : List Char) :
    trimEndChars (escapeValue cs) = escapeValue (trimEndChars cs) :=
  dropEndWhile_escapeValue isBlank_quote.1 fun h => by
    rw [isBlank_quote.2.2] at h
    cases h

theorem trimChars_escapeValue (cs : List Char) :
    trimChars (escapeValue cs) = escapeValue (trimChars cs) := by
  unfold trimChars trimStartChars
  rw [(span_escapeValue isBlank_quote.1 isBlank_quote.2.1 cs).2, trimEndChars_escapeValue]

theorem trim_escapeText (s : String) : trim (escapeText s) = escapeText (trim s) := by
  unfold trim
  rw [toList_escapeText, trimChars_escapeValue, escapeText_ofList]

theorem trimEnd_escapeText (s : String) : trimEnd (escapeText s) = escapeText (trimEnd s) := by
  unfold trimEnd
  rw [toList_escapeText, trimEndChars_escapeValue, escapeText_ofList]

theorem isBlankText_escapeText (s : String) : isBlankText (escapeText s) = isBlankText s := by
  unfold isBlankText
  rw [toList_escapeText]
  induction s.toList with
  | nil => rfl
  | cons c cs ih =>
      refine escapeValue_cons_cases
        (P := fun c cs spelled => cs.all isBlank = (escapeValue cs).all isBlank →
          spelled.all isBlank = (c :: cs).all isBlank)
        (fun cs _ => ?_) (fun c cs _ h => ?_) c cs ih.symm
      · rw [List.all_cons, isBlank_quote.1]
        rfl
      · rw [List.all_cons, List.all_cons, h]

/-! ### Marks -/

/-- The mark has neither a quote nor what the spelling of one begins with. -/
def Unquoted (mark : List Char) : Prop := '"' ∉ mark ∧ '&' ∉ mark

instance (mark : List Char) : Decidable (Unquoted mark) :=
  inferInstanceAs (Decidable ('"' ∉ mark ∧ '&' ∉ mark))

section

variable {m : Char} {mark : List Char}

theorem Unquoted.head (h : Unquoted (m :: mark)) : m ≠ '"' ∧ m ≠ '&' :=
  ⟨fun heq => h.1 (heq ▸ List.mem_cons_self), fun heq => h.2 (heq ▸ List.mem_cons_self)⟩

theorem Unquoted.tail (h : Unquoted (m :: mark)) : Unquoted mark :=
  ⟨fun hmem => h.1 (List.mem_cons_of_mem m hmem), fun hmem => h.2 (List.mem_cons_of_mem m hmem)⟩

theorem isPrefixOf_escapeValue (h : Unquoted mark) (cs : List Char) :
    mark.isPrefixOf (escapeValue cs) = mark.isPrefixOf cs := by
  induction mark generalizing cs with
  | nil => rfl
  | cons m mark ih =>
      cases cs with
      | nil => rfl
      | cons c cs =>
          by_cases hc : c = '"'
          · have hquote : (m == '"') = false := by simpa using h.head.1
            have hspelled : (m == '&') = false := by simpa using h.head.2
            subst hc
            show ((m == '&') && _) = ((m == '"') && _)
            rw [hquote, hspelled]
            rfl
          · rw [escapeValue_cons_of_ne hc]
            exact congrArg ((m == c) && ·) (ih h.tail cs)

theorem beginsWith_escapeText {start : String} (h : Unquoted start.toList) (s : String) :
    beginsWith start (escapeText s) = beginsWith start s := by
  unfold beginsWith
  rw [toList_escapeText, isPrefixOf_escapeValue h]

theorem afterChars?_escapeValue (h : Unquoted mark) (cs : List Char) :
    afterChars? mark (escapeValue cs) = (afterChars? mark cs).map escapeValue := by
  induction mark generalizing cs with
  | nil => rfl
  | cons m mark ih =>
      cases cs with
      | nil => rfl
      | cons c cs =>
          by_cases hc : c = '"'
          · subst hc
            show (if m = '&' then _ else none) = Option.map _ (if m = '"' then _ else none)
            rw [if_neg h.head.1, if_neg h.head.2]
            rfl
          · rw [escapeValue_cons_of_ne hc]
            unfold afterChars?
            split
            · exact ih h.tail cs
            · rfl

/-- Where its first character is missing, no mark begins. -/
theorem cutChars_append_of_not_mem {front : List Char} (h : m ∉ front) (rest : List Char) :
    cutChars (m :: mark) (front ++ rest)
      = (cutChars (m :: mark) rest).map fun (before, after) => (front ++ before, after) := by
  induction front with
  | nil =>
      show cutChars (m :: mark) rest = _
      cases cutChars (m :: mark) rest <;> rfl
  | cons c front ih =>
      rw [List.mem_cons, not_or] at h
      have hafter : afterChars? (m :: mark) (c :: (front ++ rest)) = none := if_neg h.1
      rw [List.cons_append, cutChars, hafter, ih h.2]
      cases cutChars (m :: mark) rest <;> rfl

/-- A mark that does not begin inside a quote that is spelled out. -/
theorem cutChars_escapeValue (h : Unquoted (m :: mark)) (hspelled : m ∉ "&quot;".toList)
    (cs : List Char) :
    cutChars (m :: mark) (escapeValue cs) = (cutChars (m :: mark) cs).map
      fun (before, after) => (escapeValue before, escapeValue after) := by
  induction cs with
  | nil => rfl
  | cons c cs ih =>
      by_cases hc : c = '"'
      · subst hc
        rw [escapeValue_quote, cutChars_append_of_not_mem hspelled, ih, cutChars,
          show afterChars? (m :: mark) ('"' :: cs) = none from if_neg h.head.1]
        cases cutChars (m :: mark) cs <;> rfl
      · have hafter := afterChars?_escapeValue h (c :: cs)
        rw [escapeValue_cons_of_ne hc] at hafter ⊢
        rw [cutChars, cutChars, hafter]
        cases afterChars? (m :: mark) (c :: cs) with
        | some after => rfl
        | none =>
            dsimp only [Option.map_none]
            rw [ih]
            cases cutChars (m :: mark) cs with
            | none => rfl
            | some parts =>
                obtain ⟨before, after⟩ := parts
                exact congrArg (fun front => some (front, escapeValue after))
                  (escapeValue_cons_of_ne hc before).symm

end

theorem holds_escapeText (s : String) :
    holds "\x7b\x7b" (escapeText s) = holds "\x7b\x7b" s := by
  unfold holds
  rw [toList_escapeText]
  show (cutChars ['{', '{'] (escapeValue s.toList)).isSome = _
  rw [cutChars_escapeValue (by decide) (by decide), Option.isSome_map]
  rfl

/-! ### Words -/

/-- What has no trace of a spelled quote had no quote. -/
theorem eq_of_escapeText {s : String} (h : '&' ∉ (escapeText s).toList) : escapeText s = s := by
  refine escapeText_eq_self fun hmem => h ?_
  rw [toList_escapeText]
  exact List.mem_flatMap.mpr ⟨'"', hmem, by decide⟩

/-- A word without quotes is one of the words in either spelling. -/
theorem mem_words_escapeText {word : String} (h : Unquoted word.toList) {s : String} :
    word ∈ words (escapeText s) ↔ word ∈ words s := by
  rw [words_escapeText, List.mem_map]
  constructor
  · rintro ⟨word', hword', rfl⟩
    rw [eq_of_escapeText h.2]
    exact hword'
  · intro hmem
    exact ⟨word, hmem, escapeText_eq_self h.1⟩

end Text

/-- Base classes without quotes are found at the end of a list whatever the spelling of its own. -/
theorem endsWithBase_escapeText_eq {tag : String} (htag : Text.Unquoted tag.toList)
    (list : String) :
    endsWithBase (escapeText list) (baseClasses tag) = endsWithBase list (baseClasses tag) := by
  have hbase : '&' ∉ (baseClasses tag).toList := by
    unfold baseClasses
    rw [String.toList_append, String.toList_append, List.mem_append, List.mem_append]
    rintro ((hmem | hmem) | hmem)
    · exact absurd hmem (by decide)
    · exact absurd hmem (by decide)
    · exact htag.2 hmem
  rw [Bool.eq_iff_iff]
  refine ⟨fun h => ?_, endsWithBase_escapeText htag.1⟩
  unfold endsWithBase at h ⊢
  rw [List.isSuffixOf_iff_suffix, Text.words_escapeText, List.suffix_map_iff] at h
  rw [List.isSuffixOf_iff_suffix]
  obtain ⟨last, hsuffix, hwords⟩ := h
  have hsame : last.map escapeText = last := by
    refine (List.map_congr_left fun word hword => ?_).trans (List.map_id last)
    refine Text.eq_of_escapeText fun hmem => hbase ?_
    have hmem' : escapeText word ∈ Text.words (baseClasses tag) :=
      hwords ▸ List.mem_map_of_mem hword
    obtain ⟨chars, hchars, heq⟩ := List.mem_map.mp hmem'
    rw [← heq, String.toList_ofList] at hmem
    exact (Text.mem_of_mem_wordsChars hchars hmem).1
  rw [hwords, hsame]
  exact hsuffix

/-! ### Literals and interpolations -/

namespace Script

theorem quoteChars_escapeValue (cs : List Char) :
    quoteChars (escapeValue cs) = escapeValue (quoteChars cs) := by
  have hinside : (escapeValue cs).flatMap quoteChar = escapeValue (cs.flatMap quoteChar) := by
    induction cs with
    | nil => rfl
    | cons c cs ih =>
        rw [List.flatMap_cons, escapeValue_append, ← ih]
        by_cases hc : c = '"'
        · have hspelled : "&quot;".toList.flatMap quoteChar = escapeValue (quoteChar '"') := by
            decide
          subst hc
          rw [escapeValue_quote, List.flatMap_append, hspelled]
        · have hquote : '"' ∉ quoteChar c := by
            unfold quoteChar
            split
            · decide
            · split
              · decide
              · split
                · decide
                · rw [List.mem_singleton]
                  exact Ne.symm hc
          rw [escapeValue_cons_of_ne hc, List.flatMap_cons, escapeValue_eq_self hquote]
  unfold quoteChars
  rw [hinside, List.cons_append, List.cons_append, escapeValue_cons_of_ne (by decide),
    escapeValue_append]
  rfl

theorem quote_escapeText (s : String) : quote (escapeText s) = escapeText (quote s) := by
  unfold quote
  rw [toList_escapeText, quoteChars_escapeValue, escapeText_ofList]

namespace Segment

/-- The piece with its quotes spelled out. -/
def escaped : Segment → Segment
  | literal text => literal (escapeValue text)
  | interpolation expression => interpolation (escapeValue expression)

theorem cutInterpolation_escapeValue (cs : List Char) :
    cutInterpolation (escapeValue cs) = (cutInterpolation cs).map
      fun (before, inside, after) =>
        (escapeValue before, escapeValue inside, escapeValue after) := by
  unfold cutInterpolation
  rw [Text.cutChars_escapeValue (by decide) (by decide)]
  cases Text.cutChars ['{', '{'] cs with
  | none => rfl
  | some parts =>
      obtain ⟨before, opened⟩ := parts
      dsimp only [Option.map_some, Option.bind_some]
      rw [Text.cutChars_escapeValue (by decide) (by decide)]
      cases Text.cutChars ['}', '}'] opened <;> rfl

/-- A text is cut into the same pieces. -/
theorem ofText_escapeValue (cs : List Char) :
    ofText (escapeValue cs) = (ofText cs).map escaped := by
  fun_induction ofText cs with
  | case1 cs hempty =>
      rw [ofText, if_pos (by rw [isEmpty_escapeValue]; exact hempty)]
      rfl
  | case2 cs hempty hcut =>
      refine ofText_eq_of_none ?_ (by rw [cutInterpolation_escapeValue, hcut]; rfl)
      rw [ne_eq, ← List.isEmpty_iff, isEmpty_escapeValue]
      exact hempty
  | case3 cs hempty before inside after hcut ih =>
      rw [ofText_eq_of_cut (by rw [cutInterpolation_escapeValue, hcut]; rfl), ih, stretch,
        isEmpty_escapeValue, List.map_append]
      split <;> rfl

theorem operand_escaped (s : Segment) : s.escaped.operand = escapeValue s.operand := by
  cases s with
  | literal text => exact quoteChars_escapeValue text
  | interpolation expression =>
      show '(' :: Text.trimChars (escapeValue expression) ++ [')'] = _
      rw [Text.trimChars_escapeValue]
      show _ = escapeValue ('(' :: (Text.trimChars expression ++ [')']))
      rw [escapeValue_cons_of_ne (by decide), escapeValue_append]
      rfl

end Segment

theorem ofInterpolated_escapeText (s : String) :
    ofInterpolated (escapeText s) = escapeText (ofInterpolated s) := by
  have hhead : ∀ segments : List Segment,
      (segments.map Segment.escaped).head?.all Segment.isInterpolation
        = segments.head?.all Segment.isInterpolation := by
    intro segments
    cases segments with
    | nil => rfl
    | cons s segments => cases s <;> rfl
  have hoperands : ∀ segments : List Segment,
      (segments.map Segment.escaped).map Segment.operand
        = (segments.map Segment.operand).map escapeValue := by
    intro segments
    rw [List.map_map, List.map_map]
    exact List.map_congr_left fun s _ => s.operand_escaped
  unfold ofInterpolated
  dsimp only
  rw [toList_escapeText, Segment.ofText_escapeValue, hhead, hoperands, escapeText_ofList,
    escapeValue_intercalate (by decide)]
  split <;> rfl

end Script

/-! ### Lengths -/

namespace Length

theorem splitDigits_escapeValue (cs : List Char) :
    splitDigits (escapeValue cs) = ((splitDigits cs).1, escapeValue (splitDigits cs).2) := by
  have hquote : isWordDigit '"' = false ∧ isWordDigit '&' = false := by decide
  obtain ⟨htake, hdrop⟩ := Text.span_escapeValue hquote.1 hquote.2 cs
  unfold splitDigits
  rw [htake, hdrop]

theorem splitUnsigned?_escapeValue (cs : List Char) :
    splitUnsigned? (escapeValue cs)
      = (splitUnsigned? cs).map fun (number, rest) => (number, escapeValue rest) := by
  unfold splitUnsigned?
  rw [splitDigits_escapeValue]
  obtain ⟨whole, rest⟩ := splitDigits cs
  dsimp only
  cases rest with
  | nil => cases whole <;> rfl
  | cons c rest =>
      by_cases hc : c = '"'
      · subst hc
        cases whole <;> rfl
      · rw [escapeValue_cons_of_ne hc]
        by_cases hpoint : c = '.'
        · subst hpoint
          cases whole with
          | nil =>
              simp only [splitDigits_escapeValue]
              obtain ⟨fraction, left⟩ := splitDigits rest
              cases fraction <;> rfl
          | cons d ds =>
              show some (d :: ds ++ '.' :: (splitDigits (escapeValue rest)).1,
                (splitDigits (escapeValue rest)).2) = _
              rw [splitDigits_escapeValue]
              rfl
        · cases whole <;> simp [hpoint, escapeValue_cons_of_ne hc]

theorem splitNumber?_escapeValue (cs : List Char) :
    splitNumber? (escapeValue cs)
      = (splitNumber? cs).map fun (number, rest) => (number, escapeValue rest) := by
  cases cs with
  | nil => exact splitUnsigned?_escapeValue []
  | cons c cs =>
      by_cases hsign : c = '-'
      · subst hsign
        rw [escapeValue_cons_of_ne (by decide)]
        show (splitUnsigned? (escapeValue cs)).map _ = ((splitUnsigned? cs).map _).map _
        rw [splitUnsigned?_escapeValue, Option.map_map, Option.map_map]
        rfl
      · rw [splitNumber?_of_ne hsign, ← splitUnsigned?_escapeValue]
        exact escapeValue_cons_cases (P := fun c _ spelled => c ≠ '-' →
            splitNumber? spelled = splitUnsigned? spelled)
          (fun _ _ => splitNumber?_of_ne (by decide))
          (fun _ _ _ hc => splitNumber?_of_ne hc) c cs hsign

theorem splitUnit?_escapeValue (cs : List Char) :
    splitUnit? (escapeValue cs) = (splitUnit? cs).map escapeValue := by
  have hunit : ∀ cs, splitUnit? cs
      = (Text.afterChars? ['c', 'p', 'x'] cs).filter fun rest => wordEndsBefore rest := by
    intro cs
    unfold splitUnit?
    split
    · rename_i rest
      rw [show Text.afterChars? ['c', 'p', 'x'] ('c' :: 'p' :: 'x' :: rest) = some rest from
        Text.afterChars?_append ['c', 'p', 'x'] rest, Option.filter_some]
    · rename_i hne
      cases hafter : Text.afterChars? ['c', 'p', 'x'] cs with
      | none => rfl
      | some rest => exact absurd (Text.eq_append_of_afterChars? hafter) (hne rest)
  rw [hunit, hunit, Text.afterChars?_escapeValue (by decide)]
  cases Text.afterChars? ['c', 'p', 'x'] cs with
  | none => rfl
  | some rest =>
      rw [Option.map_some, Option.filter_some, Option.filter_some, mirrors_escapeValue.ends]
      split <;> rfl

theorem split?_escapeValue (cs : List Char) :
    split? (escapeValue cs) = (split? cs).map fun (number, rest) => (number, escapeValue rest) := by
  unfold split?
  rw [splitNumber?_escapeValue]
  cases splitNumber? cs with
  | none => rfl
  | some parts =>
      obtain ⟨number, rest⟩ := parts
      dsimp only [Option.map_some]
      rw [splitUnit?_escapeValue, Option.map_map, Option.map_map]
      rfl

/-- A text without characters of numbers holds the beginning of no length. -/
theorem replaceAll_append_of_not_number (f : List Char → List Char) {front : List Char}
    (h : ∀ c ∈ front, ¬ IsNumberChar c) (rest : List Char) :
    replaceAll f (front ++ rest) = front ++ replaceAll f rest := by
  induction front with
  | nil => rfl
  | cons c front ih =>
      have hnone : split? (c :: (front ++ rest)) = none := by
        cases hsplit : split? (c :: (front ++ rest)) with
        | none => rfl
        | some parts =>
            obtain ⟨number, left⟩ := parts
            obtain ⟨heq, hnumber, -⟩ := split?_eq hsplit
            obtain ⟨d, number, rfl⟩ := List.exists_cons_of_ne_nil hnumber.ne_nil
            rw [List.cons_append, List.cons.injEq] at heq
            exact absurd (hnumber.chars d List.mem_cons_self) (heq.1 ▸ h c List.mem_cons_self)
      rw [List.cons_append, replaceAll_of_none f hnone,
        ih fun d hd => h d (List.mem_cons_of_mem c hd)]
      rfl

/-- Lengths are found whatever the spelling of quotes, and are written alike. -/
theorem escapeValue_replaceAll (f : List Char → List Char) (cs : List Char) :
    escapeValue (replaceAll f (escapeValue cs)) = escapeValue (replaceAll f cs) := by
  fun_induction replaceAll f cs with
  | case1 =>
      show escapeValue (replaceAll f []) = []
      rw [replaceAll]
      rfl
  | case2 c rest number left hsplit ih =>
      have hsplit' := split?_escapeValue (c :: rest)
      rw [hsplit, Option.map_some] at hsplit'
      obtain ⟨d, ds, hcons⟩ : ∃ d ds, escapeValue (c :: rest) = d :: ds :=
        List.exists_cons_of_ne_nil fun hnil => by
          rw [escapeValue_eq_nil_iff] at hnil
          cases hnil
      rw [hcons] at hsplit' ⊢
      rw [replaceAll_of_some f hsplit', escapeValue_append, escapeValue_append, ih]
  | case3 c rest hnone ih =>
      by_cases hc : c = '"'
      · have hspelled : ∀ d ∈ "&quot;".toList, ¬ IsNumberChar d := by
          have hall : "&quot;".toList.all
              (fun d => !(isWordDigit d || d == '.' || d == '-')) = true := by decide
          intro d hd hnumber
          have hd := List.all_eq_true.mp hall d hd
          rcases hnumber with h | h | h <;> simp [h] at hd
        have hfixed : escapeValue "&quot;".toList = "&quot;".toList := by decide
        subst hc
        rw [escapeValue_quote, replaceAll_append_of_not_number f hspelled, escapeValue_append, ih,
          hfixed, escapeValue_quote]
      · have hsplit' := split?_escapeValue (c :: rest)
        rw [hnone, Option.map_none, escapeValue_cons_of_ne hc] at hsplit'
        rw [escapeValue_cons_of_ne hc, replaceAll_of_none f hsplit', escapeValue_cons_of_ne hc, ih,
          escapeValue_cons_of_ne hc]

end Length

/-! ### Loops -/

namespace Iteration

theorem atKeyword_escapeValue (cs : List Char) : atKeyword (escapeValue cs) = atKeyword cs := by
  have hkeyword : ∀ cs, atKeyword cs
      = (((Text.afterChars? ['i', 'n'] cs).any fun rest => rest.head?.any isAsciiBlank)
        || (Text.afterChars? ['o', 'f'] cs).any fun rest => rest.head?.any isAsciiBlank) := by
    intro cs
    unfold atKeyword
    split
    · simp [Text.afterChars?]
    · simp [Text.afterChars?]
    · rename_i hin hof
      have hnone : ∀ k l, (∀ c rest, cs ≠ k :: l :: c :: rest) →
          ((Text.afterChars? [k, l] cs).any fun rest => rest.head?.any isAsciiBlank) = false := by
        intro k l hne
        cases hafter : Text.afterChars? [k, l] cs with
        | none => rfl
        | some rest =>
            cases rest with
            | nil => rfl
            | cons c rest => exact absurd (Text.eq_append_of_afterChars? hafter) (hne c rest)
      rw [hnone 'i' 'n' hin, hnone 'o' 'f' hof]
      rfl
  have hblank : ∀ rest : List Char,
      (escapeValue rest).head?.any isAsciiBlank = rest.head?.any isAsciiBlank := by
    intro rest
    cases rest with
    | nil => rfl
    | cons c rest =>
        by_cases hc : c = '"'
        · subst hc
          rfl
        · rw [escapeValue_cons_of_ne hc]
          rfl
  have hafter : ∀ mark, Text.Unquoted mark →
      ((Text.afterChars? mark (escapeValue cs)).any fun rest => rest.head?.any isAsciiBlank)
        = (Text.afterChars? mark cs).any fun rest => rest.head?.any isAsciiBlank := by
    intro mark hmark
    rw [Text.afterChars?_escapeValue hmark]
    cases Text.afterChars? mark cs with
    | none => rfl
    | some rest => exact hblank rest
  rw [hkeyword, hkeyword, hafter _ (by decide), hafter _ (by decide)]

/-- The keyword is the last thing that is looked at. -/
theorem atKeyword_second {c : Char} {rest : List Char} (h : atKeyword (c :: rest) = true) :
    c ≠ '"' ∧ ∃ d left, rest = d :: left ∧ d ≠ '"' := by
  unfold atKeyword at h
  split at h
  · rename_i heq
    obtain ⟨rfl, rfl⟩ := List.cons.inj heq
    exact ⟨by decide, _, _, rfl, by decide⟩
  · rename_i heq
    obtain ⟨rfl, rfl⟩ := List.cons.inj heq
    exact ⟨by decide, _, _, rfl, by decide⟩
  · cases h

/-- A keyword without a quote before it is found in the same place. -/
theorem splitKeyword_escapeValue {s : Nesting} {previous : Option Char}
    {cs before after : List Char}
    (h : splitKeyword s previous cs = some (before, after)) (hbefore : '"' ∉ before) :
    splitKeyword s previous (escapeValue cs) = some (before, escapeValue after) := by
  induction cs generalizing s previous before with
  | nil => cases h
  | cons c rest ih =>
      have hsame := atKeyword_escapeValue (c :: rest)
      rw [splitKeyword] at h
      split at h
      · rename_i hat
        cases h
        simp only [Bool.and_eq_true] at hat
        obtain ⟨hc, d, left, rfl, hd⟩ := atKeyword_second hat.2
        rw [escapeValue_cons_of_ne hc] at hsame ⊢
        rw [splitKeyword, if_pos (by rw [hsame]; simp [hat]), escapeValue_cons_of_ne hd]
        rfl
      · rename_i hat
        obtain ⟨⟨front, left⟩, hfound, heq⟩ := Option.map_eq_some_iff.mp h
        cases heq
        rw [List.mem_cons, not_or] at hbefore
        rw [escapeValue_cons_of_ne (Ne.symm hbefore.1)] at hsame ⊢
        rw [splitKeyword, if_neg (by rw [hsame]; exact hat), ih hfound hbefore.2]
        rfl

/-- A keyword that is found where quotes are spelled out, with none before it, was there before. -/
theorem splitKeyword_of_escapeValue {s : Nesting} {previous : Option Char}
    {cs before after : List Char}
    (h : splitKeyword s previous (escapeValue cs) = some (before, after)) (hbefore : '&' ∉ before) :
    '"' ∉ before ∧ ∃ left, splitKeyword s previous cs = some (before, left) := by
  induction cs generalizing s previous before with
  | nil => cases h
  | cons c rest ih =>
      have hsame := atKeyword_escapeValue (c :: rest)
      by_cases hc : c = '"'
      · -- What is left before the keyword would begin with the spelling of the quote.
        subst hc
        have hcons : escapeValue ('"' :: rest) = '&' :: ("quot;".toList ++ escapeValue rest) := rfl
        rw [hcons, splitKeyword] at h
        split at h
        · rename_i hat
          rw [Bool.and_eq_true] at hat
          cases hat.2
        · obtain ⟨⟨front, left⟩, -, heq⟩ := Option.map_eq_some_iff.mp h
          cases heq
          exact absurd List.mem_cons_self hbefore
      · rw [escapeValue_cons_of_ne hc] at h hsame
        rw [splitKeyword] at h
        rw [splitKeyword]
        split at h
        · rename_i hat
          cases h
          rw [hsame] at hat
          exact ⟨List.not_mem_nil, _, if_pos hat⟩
        · rename_i hat
          rw [hsame] at hat
          obtain ⟨⟨front, left⟩, hfound, heq⟩ := Option.map_eq_some_iff.mp h
          cases heq
          rw [List.mem_cons, not_or] at hbefore
          obtain ⟨hquote, left', hfound'⟩ := ih hfound hbefore.2
          refine ⟨?_, left', ?_⟩
          · rw [List.mem_cons, not_or]
            exact ⟨Ne.symm hc, hquote⟩
          · rw [if_neg hat, hfound']
            rfl

/-- No quote stands before the keyword, or anywhere if there is no keyword. -/
def QuotedLate (expression : String) : Prop :=
  '"' ∉ ((splitKeyword .outside none expression.toList).map Prod.fst).getD expression.toList

instance (expression : String) : Decidable (QuotedLate expression) :=
  inferInstanceAs (Decidable ('"' ∉
    ((splitKeyword .outside none expression.toList).map Prod.fst).getD expression.toList))

theorem parse?_escapeText {expression : String} (h : QuotedLate expression) :
    parse? (escapeText expression)
      = (parse? expression).map fun it => { it with source := escapeText it.source } := by
  unfold QuotedLate at h
  unfold parse? parseChars?
  rw [toList_escapeText]
  cases hsplit : splitKeyword .outside none expression.toList with
  | none =>
      rw [hsplit] at h
      have h : '"' ∉ expression.toList := h
      rw [escapeValue_eq_self h, hsplit]
      rfl
  | some parts =>
      obtain ⟨before, after⟩ := parts
      rw [hsplit] at h
      rw [splitKeyword_escapeValue hsplit h]
      dsimp only
      rw [Text.trimChars_escapeValue, isEmpty_escapeValue]
      split
      · rfl
      · rw [Option.map_some, Option.map_some, Option.map_some, escapeText_ofList]

theorem isIdentifierPart_of_mem {name : String} (h : isIdentifier name = true) {c : Char}
    (hc : c ∈ name.toList) : isIdentifierPart c = true := by
  unfold isIdentifier at h
  cases hname : name.toList with
  | nil =>
      rw [hname] at hc
      cases hc
  | cons d ds =>
      rw [hname] at h hc
      rw [Bool.and_eq_true, List.all_eq_true] at h
      rcases List.mem_cons.mp hc with rfl | hc
      · unfold isIdentifierPart
        rw [h.1]
        rfl
      · exact h.2 c hc

/-- The names of a loop that can be split are written with characters of identifiers, blanks,
parentheses and commas. -/
theorem mem_of_splitAliases {cs : List Char}
    (h : ∀ name ∈ splitAliases cs, isIdentifier (String.ofList name) = true) {c : Char}
    (hc : c ∈ cs) : isIdentifierPart c = true ∨ isBlank c = true ∨ c ∈ ['(', ')', ','] := by
  have hname : ∀ name ∈ splitAliases cs, ∀ c ∈ name, isIdentifierPart c = true :=
    fun name hname c hc => isIdentifierPart_of_mem (h name hname) (by rwa [String.toList_ofList])
  unfold splitAliases at hname
  split at hname
  · rename_i list hinside
    unfold insideParentheses? at hinside
    split at hinside
    · rename_i rest
      split at hinside
      · rename_i hlast
        cases hinside
        rcases List.mem_cons.mp hc with rfl | hc
        · exact .inr (.inr (by simp))
        · have hlast : rest.dropLast ++ [')'] = rest :=
            List.dropLast_append_getLast? ')' (by simpa using hlast)
          rw [← hlast, List.mem_append, List.mem_singleton,
            ← Nesting.intercalate_splitTop quoting ',' .outside rest.dropLast] at hc
          rcases hc with hc | rfl
          · rcases Text.mem_of_mem_intercalate hc with hc | ⟨piece, hpiece, hc⟩
            · exact .inr (.inr (by simp [List.mem_singleton.mp hc]))
            · rcases Text.blank_or_mem_trimChars hc with hblank | hc
              · exact .inr (.inl hblank)
              · exact .inl (hname _ (List.mem_map_of_mem hpiece) c hc)
          · exact .inr (.inr (by simp))
      · cases hinside
    · cases hinside
  · exact .inl (hname cs (List.mem_singleton_self cs) c hc)

/-- A quote belongs to no identifier, and neither does what the spelling of one begins with. -/
theorem not_isIdentifierPart : isIdentifierPart '"' = false ∧ isIdentifierPart '&' = false := by
  decide +kernel

/-- Before the keyword of a loop that can be split stands no quote in either spelling. -/
theorem unquoted_of_isSplittable {expression : String} {it : Iteration}
    (h : parse? expression = some it) (hit : it.isSplittable = true) :
    ∃ before after, splitKeyword .outside none expression.toList = some (before, after) ∧
      Text.Unquoted before := by
  unfold parse? parseChars? at h
  cases hsplit : splitKeyword .outside none expression.toList with
  | none =>
      rw [hsplit] at h
      cases h
  | some parts =>
      obtain ⟨before, after⟩ := parts
      rw [hsplit] at h
      dsimp only at h
      split at h
      · cases h
      · cases h
        unfold isSplittable hasSimpleAliases at hit
        rw [Bool.and_eq_true, List.all_map, List.all_eq_true] at hit
        have hchars : ∀ c ∈ before, isIdentifierPart c = true ∨ isBlank c = true ∨
            c ∈ ['(', ')', ','] := by
          intro c hc
          rcases Text.blank_or_mem_trimChars hc with hblank | hc
          · exact .inr (.inl hblank)
          · exact mem_of_splitAliases hit.2 hc
        refine ⟨before, after, rfl, fun hmem => ?_, fun hmem => ?_⟩
        · exact absurd (hchars _ hmem) (by rw [not_isIdentifierPart.1]; decide)
        · exact absurd (hchars _ hmem) (by rw [not_isIdentifierPart.2]; decide)

/-- A loop that is split is written with the quotes of its source spelled out. -/
theorem attributes_escapeText {it : Iteration} (hit : it.isSplittable = true)
    (itemName indexName sourceName : String) (encoding : Encoding) :
    ({ it with source := escapeText it.source } : Iteration).attributes itemName indexName
        sourceName encoding
      = (it.attributes itemName indexName sourceName encoding).map Attribute.escaped := by
  have hsame : ∀ name ∈ "" :: defaultIndex :: it.aliases, escapeText name = name := by
    intro name hname
    rcases List.mem_cons.mp hname with rfl | hname
    · rfl
    · rcases List.mem_cons.mp hname with rfl | hname
      · decide
      · unfold isSplittable hasSimpleAliases at hit
        rw [Bool.and_eq_true, List.all_eq_true] at hit
        refine escapeText_eq_self fun hmem => ?_
        have hpart := isIdentifierPart_of_mem (hit.2 name hname) hmem
        rw [not_isIdentifierPart.1] at hpart
        cases hpart
  have hitem : escapeText it.item = it.item := hsame _ (by
    unfold item
    cases it.aliases <;> simp)
  have hindex : escapeText it.index = it.index := hsame _ (by
    unfold index
    cases hsecond : it.aliases[1]? with
    | none => simp
    | some name => simp [List.mem_of_getElem? hsecond])
  show [(itemName, some it.item), (indexName, some it.index),
      (sourceName, some (encoding.encode (escapeText it.source)))]
    = [(itemName, some (escapeText it.item)), (indexName, some (escapeText it.index)),
      (sourceName, some (escapeText (encoding.encode it.source)))]
  rw [hitem, hindex, escapeText_encode]

/-- Whether a loop can be split does not depend on how quotes are spelled. -/
theorem filter_parse?_escapeText (expression : String) :
    (parse? (escapeText expression)).filter isSplittable
      = ((parse? expression).filter isSplittable).map
        fun it => { it with source := escapeText it.source } := by
  by_cases hlate : QuotedLate expression
  · rw [parse?_escapeText hlate]
    cases parse? expression with
    | none => rfl
    | some it =>
        rw [Option.map_some, Option.filter_some, Option.filter_some]
        show (if it.isSplittable = true then _ else none) = _
        split <;> rfl
  · have hnone : (parse? expression).filter isSplittable = none := by
      rw [Option.filter_eq_none_iff]
      intro it hit hsplittable
      obtain ⟨before, after, hsplit, hbefore⟩ := unquoted_of_isSplittable hit hsplittable
      refine hlate ?_
      unfold QuotedLate
      rw [hsplit]
      exact hbefore.1
    have hnone' : (parse? (escapeText expression)).filter isSplittable = none := by
      rw [Option.filter_eq_none_iff]
      intro it hit hsplittable
      obtain ⟨before, after, hsplit, hbefore⟩ := unquoted_of_isSplittable hit hsplittable
      rw [toList_escapeText] at hsplit
      obtain ⟨hquote, left, hsplit⟩ := splitKeyword_of_escapeValue hsplit hbefore.2
      refine hlate ?_
      unfold QuotedLate
      rw [hsplit]
      exact hquote
    rw [hnone, hnone']
    rfl

end Iteration

end TemplateCompiler
