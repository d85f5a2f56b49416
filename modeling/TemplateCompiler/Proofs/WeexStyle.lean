/-
Styles for weex are written declaration by declaration, and only once.

Writing a declaration takes away and puts in blanks, digits, letters and the hash of a
colour.  Where a style is cut is decided by other characters: quotes, brackets and
semicolons.  They stay in their order (`skeleton_weexDeclaration`), so the style that has
been written is cut as the old one was, and its declarations are the written ones.

A declaration that has been written is not changed any more.  Its property has been
trimmed.  Its value holds no length of the design, no word of it is a colour that is written
in another way, and the words have single blanks between them; or it holds an interpolation,
and then it holds one still, because only lengths have been replaced.
-/
import TemplateCompiler.Proofs.Blanks
import TemplateCompiler.Proofs.Declarations
import TemplateCompiler.Proofs.Reading.Grammar

namespace TemplateCompiler

/-! ### Words of a text -/

namespace Text

variable {mark cs word : List Char}

theorem Lacks.of_infix (h : Lacks mark cs) (hword : word <:+: cs) : Lacks mark word := by
  obtain ⟨front, back, rfl⟩ := hword
  rintro before after rfl
  exact h (front ++ before) (after ++ back) (by simp)

/-- A mark does not begin in one text and end in another, if a character stands between them that
does not belong to it. -/
theorem Lacks.append_cons {front back : List Char} {c : Char} (hfront : Lacks mark front)
    (hback : Lacks mark back) (hmark : mark ≠ []) (hc : c ∉ mark) :
    Lacks mark (front ++ c :: back) := by
  intro before after heq
  rw [List.append_assoc, List.append_eq_append_iff] at heq
  rcases heq with ⟨rest, -, heq⟩ | ⟨rest, rfl, heq⟩
  · cases rest with
    | nil =>
        obtain ⟨m, mark, rfl⟩ := List.exists_cons_of_ne_nil hmark
        rw [List.nil_append, List.cons_append, List.cons.injEq] at heq
        exact hc (heq.1 ▸ List.mem_cons_self)
    | cons d rest =>
        rw [List.cons_append, List.cons.injEq] at heq
        exact hback rest after (by rw [heq.2, List.append_assoc])
  · rcases List.append_eq_append_iff.mp heq with ⟨more, rfl, -⟩ | ⟨more, rfl, hmore⟩
    · exact hfront before more (by simp)
    · cases more with
      | nil => exact hfront before [] (by simp)
      | cons d more =>
          rw [List.cons_append, List.cons.injEq] at hmore
          exact hc (hmore.1 ▸ List.mem_append_right _ List.mem_cons_self)

theorem trimChars_infix (cs : List Char) : trimChars cs <:+: cs :=
  (List.rdropWhile_prefix isBlank (trimStartChars cs)).isInfix.trans
    (List.dropWhile_suffix isBlank).isInfix

end Text

/-! ### Lengths in words -/

/-- Every blank ends a word. -/
theorem isWordChar_of_isBlank {c : Char} (h : isBlank c = true) : isWordChar c = false :=
  @forall_isBlank (isWordChar · = false) (by decide +kernel) c h

namespace Length

variable {cs : List Char} {c : Char}

theorem stops_of_isBlank (hc : isBlank c = true) : Stops c where
  word := isWordChar_of_isBlank hc
  point := fun heq => absurd (heq ▸ hc) (by decide)
  sign := fun heq => absurd (heq ▸ hc) (by decide)

theorem clear_of_not_mem (h : 'x' ∉ cs) : Clear cs := by
  induction cs with
  | nil => trivial
  | cons c cs ih =>
      refine ⟨fun hends => h ?_, ih fun hmem => h (List.mem_cons_of_mem c hmem)⟩
      cases hends <;> simp

theorem Clear.of_mem_wordsChars (h : Clear cs) {word : List Char}
    (hword : word ∈ Text.wordsChars cs) : Clear word := by
  obtain ⟨front, back, rfl, hback⟩ := Text.exists_of_mem_wordsChars hword
  have hrest := h.of_append
  cases back with
  | nil => rwa [List.append_nil] at hrest
  | cons c back => exact ((stops_of_isBlank (hback c rfl)).clear_append.mp hrest).1

theorem clear_intercalate {words : List (List Char)} (h : ∀ word ∈ words, Clear word) :
    Clear ([' '].intercalate words) := by
  induction words with
  | nil => trivial
  | cons word words ih =>
      have hword := h word List.mem_cons_self
      cases words with
      | nil => rwa [List.intercalate_singleton]
      | cons next words =>
          rw [List.intercalate_cons_cons, List.append_assoc, List.singleton_append,
            (stops_of_isBlank (by decide)).clear_append]
          exact ⟨hword, ih fun w hw => h w (List.mem_cons_of_mem word hw)⟩

end Length

namespace Style

variable {cs value : List Char}

/-! ### What decides where a style is cut -/

/-- Quotes, brackets and the semicolon. -/
def skeletonChars : List Char := ['\'', '"', '(', '[', '{', ')', ']', '}', ';']

/-- The quotes, brackets and semicolons of a style. -/
def skeleton (cs : List Char) : List Char := cs.filter (Nesting.significant quoting ';')

theorem mem_of_significant {c : Char} (h : Nesting.significant quoting ';' c = true) :
    c ∈ skeletonChars := by
  simp only [Nesting.significant, quoting, Nesting.isOpening, Nesting.isClosing,
    List.contains_cons, List.contains_nil, Bool.or_eq_true, Bool.or_false, beq_iff_eq] at h
  rcases h with (((rfl | rfl) | (rfl | rfl) | rfl) | (rfl | rfl) | rfl) | rfl <;> decide

theorem skeleton_append (front back : List Char) :
    skeleton (front ++ back) = skeleton front ++ skeleton back :=
  List.filter_append ..

theorem skeleton_cons_of_not {c : Char} (hc : c ∉ skeletonChars) (cs : List Char) :
    skeleton (c :: cs) = skeleton cs :=
  List.filter_cons_of_neg fun h => hc (mem_of_significant h)

/-- Blanks do not decide where a style is cut. -/
theorem skeleton_filter_not_isBlank (cs : List Char) :
    skeleton (cs.filter fun c => !isBlank c) = skeleton cs := by
  have hblank : skeletonChars.any isBlank = false := by decide
  unfold skeleton
  rw [List.filter_filter]
  refine List.filter_congr fun c _ => ?_
  cases hc : Nesting.significant quoting ';' c with
  | false => rfl
  | true =>
      rw [Bool.eq_false_iff.mpr (List.any_eq_false.mp hblank c (mem_of_significant hc))]
      rfl

theorem skeleton_trimChars (cs : List Char) : skeleton (Text.trimChars cs) = skeleton cs := by
  rw [← skeleton_filter_not_isBlank, Text.filter_trimChars, skeleton_filter_not_isBlank]

theorem skeleton_intercalate (separator : List Char) (pieces : List (List Char)) :
    skeleton (separator.intercalate pieces)
      = (skeleton separator).intercalate (pieces.map skeleton) := by
  induction pieces with
  | nil => rfl
  | cons piece pieces ih =>
      cases pieces with
      | nil => rw [List.map_singleton, List.intercalate_singleton, List.intercalate_singleton]
      | cons next pieces =>
          rw [List.intercalate_cons_cons, skeleton_append, skeleton_append, ih, List.map_cons,
            List.map_cons, List.map_cons, List.intercalate_cons_cons]

theorem nil_intercalate (pieces : List (List Char)) : [].intercalate pieces = pieces.flatten := by
  induction pieces with
  | nil => rfl
  | cons piece pieces ih =>
      cases pieces with
      | nil => rw [List.intercalate_singleton, List.flatten_singleton]
      | cons next pieces =>
          rw [List.intercalate_cons_cons, ih, List.append_nil]
          rfl

theorem flatten_map_skeleton (words : List (List Char)) :
    (words.map skeleton).flatten = skeleton words.flatten :=
  List.filter_flatten.symm

theorem skeleton_withUnit {unit : List Char} (hunit : skeleton unit = []) (cs : List Char) :
    skeleton (withUnit unit cs) = skeleton cs := by
  unfold withUnit
  fun_induction Length.replaceAll (· ++ unit) cs with
  | case1 => rfl
  | case2 c rest number left hsplit ih =>
      have hcpx : skeleton ('c' :: 'p' :: 'x' :: left) = skeleton left :=
        skeleton_append ['c', 'p', 'x'] left
      rw [(Length.split?_eq hsplit).1, skeleton_append, skeleton_append, skeleton_append, ih, hcpx,
        hunit, List.append_nil]
  | case3 c rest hnone ih => exact (skeleton_append [c] _).trans (ih ▸ skeleton_append [c] rest).symm

theorem skeleton_normalize (word : List Char) : skeleton (Color.normalize word) = skeleton word := by
  by_cases hword : ∃ c ∈ word, Nesting.significant quoting ';' c = true
  · obtain ⟨c, hc, hsignificant⟩ := hword
    have hall : skeletonChars.all (fun c => !c.isAlphanum && c != '#') = true := by decide
    have hplain := List.all_eq_true.mp hall c (mem_of_significant hsignificant)
    rw [Bool.and_eq_true, Bool.not_eq_true', bne_iff_ne] at hplain
    rw [Color.normalize_eq_self hc hplain.1 hplain.2]
  · have hnil : skeleton word = [] :=
      List.filter_eq_nil_iff.mpr fun c hc hsignificant => hword ⟨c, hc, hsignificant⟩
    rcases Color.normalize_cases word with h | h
    · rw [h]
    · have hall : "#0123456789abcdefABCDEF".toList.any (Nesting.significant quoting ';') = false := by
        decide
      rw [hnil]
      exact List.filter_eq_nil_iff.mpr fun c hc => List.any_eq_false.mp hall c (h.mem hc)

/-- Colours in the words of a value, with single blanks between them. -/
def writtenWords (cs : List Char) : List Char :=
  [' '].intercalate ((Text.wordsChars cs).map Color.normalize)

theorem skeleton_writtenWords (cs : List Char) : skeleton (writtenWords cs) = skeleton cs := by
  have hwords : skeleton ∘ Color.normalize = skeleton := funext skeleton_normalize
  have hblank : skeleton [' '] = [] := rfl
  rw [writtenWords, skeleton_intercalate, hblank, nil_intercalate, List.map_map, hwords,
    flatten_map_skeleton, Text.flatten_wordsChars, skeleton_filter_not_isBlank]

theorem skeleton_weexValue (cs : List Char) : skeleton (weexValue cs) = skeleton cs := by
  have hunit : skeleton (withUnit ['p', 'x'] cs) = skeleton cs := skeleton_withUnit rfl cs
  unfold weexValue
  dsimp only
  split
  · exact hunit
  · exact (skeleton_writtenWords _).trans hunit

/-- Writing a declaration keeps all that decides where the style is cut. -/
theorem skeleton_weexDeclaration (cs : List Char) : skeleton (weexDeclaration cs) = skeleton cs := by
  unfold weexDeclaration
  split
  · rename_i property value hcut
    split
    · rfl
    · have hcs : cs = property ++ ':' :: value := by simpa using Text.eq_of_cutChars hcut
      rw [hcs, skeleton_append, skeleton_append, skeleton_trimChars,
        skeleton_cons_of_not (by decide), skeleton_cons_of_not (by decide),
        skeleton_cons_of_not (by decide), skeleton_weexValue, skeleton_trimChars]
  · rfl

/-! ### Values that have been written -/

theorem isSome_cutChars_eq_false {mark : List Char} (hmark : mark ≠ []) {cs : List Char} :
    (Text.cutChars mark cs).isSome = false ↔ Text.Lacks mark cs := by
  rw [← Text.cutChars_eq_none_iff hmark, Option.isSome_eq_false_iff, Option.isNone_iff_eq_none]

/-- Replacing the unit keeps the first character, and the last one, since both units end alike. -/
theorem head?_withUnit (unit cs : List Char) : (withUnit unit cs).head? = cs.head? := by
  unfold withUnit
  rcases Length.replaceAll_cases unit cs with
    ⟨rfl, hnil⟩ | ⟨c, rest, rfl, -, hcons⟩ | ⟨number, left, -, rfl, hnumber, happend⟩
  · rw [hnil]
  · rw [hcons, List.head?_cons, List.head?_cons]
  · rw [happend, List.head?_append_of_ne_nil _ hnumber.ne_nil,
      List.head?_append_of_ne_nil _ hnumber.ne_nil]

theorem getLast?_withUnit (cs : List Char) : (withUnit ['p', 'x'] cs).getLast? = cs.getLast? := by
  have hlast : ∀ (front : List Char) (c : Char) (back : List Char),
      (front ++ c :: back).getLast? = some (back.getLast?.getD c) := by
    intro front c back
    rw [List.getLast?_append, List.getLast?_cons]
    rfl
  unfold withUnit
  fun_induction Length.replaceAll (· ++ ['p', 'x']) cs with
  | case1 => rfl
  | case2 c rest number left hsplit ih =>
      have hnew : number ++ ['p', 'x'] ++ Length.replaceAll (· ++ ['p', 'x']) left
          = number ++ ['p'] ++ 'x' :: Length.replaceAll (· ++ ['p', 'x']) left := by simp
      have hold : number ++ 'c' :: 'p' :: 'x' :: left = number ++ ['c', 'p'] ++ 'x' :: left := by
        simp
      rw [(Length.split?_eq hsplit).1, hnew, hold, hlast, hlast, ih]
  | case3 c rest hnone ih => exact (hlast [] c _).trans (ih ▸ hlast [] c rest).symm

theorem trimmed_withUnit (h : Text.Trimmed cs) : Text.Trimmed (withUnit ['p', 'x'] cs) :=
  ⟨fun c hc => h.head c (head?_withUnit _ cs ▸ hc), fun c hc => h.last c (getLast?_withUnit cs ▸ hc)⟩

theorem clear_withUnit (cs : List Char) : Length.Clear (withUnit ['p', 'x'] cs) :=
  Length.clear_replaceAll (by simp) (fun c hc => isUnitChar_rpx c (List.mem_cons_of_mem 'r' hc)) cs

/-- Colours are words. -/
theorem isWord_normalize {word : List Char} (h : Text.IsWord word) :
    Text.IsWord (Color.normalize word) := by
  rcases Color.normalize_cases word with heq | hhex
  · exact heq.symm ▸ h
  · have hall : "#0123456789abcdefABCDEF".toList.any isBlank = false := by decide
    refine ⟨?_, fun c hc => Bool.eq_false_iff.mpr (List.any_eq_false.mp hall c (hhex.mem hc))⟩
    obtain ⟨digits, heq, -⟩ := hhex
    rw [heq]
    exact List.cons_ne_nil '#' digits

/-- The words of a value without an interpolation, written for weex. -/
def weexWords (cs : List Char) : List (List Char) :=
  (Text.wordsChars (withUnit ['p', 'x'] cs)).map Color.normalize

theorem isWord_of_mem_weexWords {word : List Char} (h : word ∈ weexWords cs) :
    Text.IsWord word := by
  obtain ⟨old, hold, rfl⟩ := List.mem_map.mp h
  exact isWord_normalize (Text.isWord_of_mem_wordsChars hold)

/-- A value keeps its interpolations and its blanks, or it is made of words. -/
theorem weexValue_cases (cs : List Char) :
    (Text.cutChars interpolationMark (withUnit ['p', 'x'] cs)).isSome = true ∧
        weexValue cs = withUnit ['p', 'x'] cs ∨
      Text.Lacks interpolationMark (withUnit ['p', 'x'] cs) ∧
        weexValue cs = [' '].intercalate (weexWords cs) := by
  unfold weexValue
  dsimp only
  split
  · rename_i h
    exact .inl ⟨h, rfl⟩
  · rename_i h
    exact .inr ⟨(isSome_cutChars_eq_false (by decide)).mp (Bool.eq_false_iff.mpr h), rfl⟩

theorem trimmed_weexValue (h : Text.Trimmed cs) : Text.Trimmed (weexValue cs) := by
  rcases weexValue_cases cs with ⟨-, heq⟩ | ⟨-, heq⟩
  · rw [heq]
    exact trimmed_withUnit h
  · rw [heq]
    exact Text.trimmed_intercalate fun word hword => isWord_of_mem_weexWords hword

/-- Words that have been written hold no length and no interpolation. -/
theorem clear_of_mem_weexWords {word : List Char} (h : word ∈ weexWords cs) :
    Length.Clear word := by
  obtain ⟨old, hold, rfl⟩ := List.mem_map.mp h
  rcases Color.normalize_cases old with heq | hhex
  · rw [heq]
    exact (clear_withUnit cs).of_mem_wordsChars hold
  · have hall : 'x' ∉ "#0123456789abcdefABCDEF".toList := by decide
    exact Length.clear_of_not_mem fun hx => hall (hhex.mem hx)

theorem lacks_of_mem_weexWords (h : Text.Lacks interpolationMark (withUnit ['p', 'x'] cs))
    {word : List Char} (hword : word ∈ weexWords cs) : Text.Lacks interpolationMark word := by
  obtain ⟨old, hold, rfl⟩ := List.mem_map.mp hword
  rcases Color.normalize_cases old with heq | hhex
  · obtain ⟨front, back, hcs, -⟩ := Text.exists_of_mem_wordsChars hold
    rw [heq]
    exact h.of_infix ⟨front, back, by rw [hcs, List.append_assoc]⟩
  · rintro before after hmark
    have hall : '{' ∉ "#0123456789abcdefABCDEF".toList := by decide
    exact hall (hhex.mem (hmark ▸ by simp [interpolationMark]))

theorem lacks_intercalate {words : List (List Char)}
    (h : ∀ word ∈ words, Text.Lacks interpolationMark word) :
    Text.Lacks interpolationMark ([' '].intercalate words) := by
  induction words with
  | nil => exact fun before after heq => by simp [interpolationMark] at heq
  | cons word words ih =>
      have hword := h word List.mem_cons_self
      cases words with
      | nil => rwa [List.intercalate_singleton]
      | cons next words =>
          rw [List.intercalate_cons_cons, List.append_assoc, List.singleton_append]
          exact hword.append_cons (ih fun w hw => h w (List.mem_cons_of_mem word hw)) (by decide)
            (by decide)

/-- A value is written once. -/
theorem weexValue_weexValue (cs : List Char) : weexValue (weexValue cs) = weexValue cs := by
  rcases weexValue_cases cs with ⟨hmark, heq⟩ | ⟨hlacks, heq⟩
  · have hunit : withUnit ['p', 'x'] (weexValue cs) = weexValue cs := by
      rw [heq]
      exact (clear_withUnit cs).replaceAll_eq _
    rw [weexValue, hunit, heq, hmark]
    rfl
  · have hunit : withUnit ['p', 'x'] (weexValue cs) = weexValue cs := by
      rw [heq]
      exact (Length.clear_intercalate fun word hword => clear_of_mem_weexWords hword).replaceAll_eq _
    have hnone : (Text.cutChars interpolationMark (weexValue cs)).isSome = false := by
      rw [heq, isSome_cutChars_eq_false (by decide)]
      exact lacks_intercalate fun word hword => lacks_of_mem_weexWords hlacks hword
    have hwords : (weexWords cs).map Color.normalize = weexWords cs := by
      rw [weexWords, List.map_map]
      exact List.map_congr_left fun word _ => Color.normalize_normalize word
    rw [weexValue, hunit, hnone, heq, Text.wordsChars_intercalate fun word hword =>
      isWord_of_mem_weexWords hword, hwords]
    rfl

/-! ### Declarations that have been written -/

/-- A declaration is cut at its first colon. -/
theorem cutChars_colon {property : List Char} (hcolon : ':' ∉ property) (value : List Char) :
    Text.cutChars [':'] (property ++ ':' :: value) = some (property, value) := by
  rw [Text.cutChars_append_of_not_mem hcolon]
  show some (property ++ [], value) = _
  rw [List.append_nil]

/-- A declaration with a property that has no interpolation. -/
theorem weexDeclaration_eq {property : List Char} (hcolon : ':' ∉ property)
    (hlacks : Text.Lacks interpolationMark property) (value : List Char) :
    weexDeclaration (property ++ ':' :: value)
      = Text.trimChars property ++ ':' :: ' ' :: weexValue (Text.trimChars value) := by
  have hnone := (isSome_cutChars_eq_false (by decide)).mpr hlacks
  unfold weexDeclaration
  rw [cutChars_colon hcolon]
  dsimp only
  rw [hnone]
  rfl

/-- A declaration is kept, or it has such a property. -/
theorem weexDeclaration_cases (cs : List Char) : weexDeclaration cs = cs ∨
    ∃ property value, cs = property ++ ':' :: value ∧ ':' ∉ property ∧
      Text.Lacks interpolationMark property := by
  unfold weexDeclaration
  split
  · rename_i property value hcut
    split
    · exact .inl rfl
    · rename_i hmark
      have hlacks : Text.Lacks [':'] property := (Text.cutChars_eq_none_iff (by decide)).mp
        (Text.cutChars_eq_none_of_cutChars (by decide) hcut)
      refine .inr ⟨property, value, by simpa using Text.eq_of_cutChars hcut, fun hmem => ?_,
        (isSome_cutChars_eq_false (by decide)).mp (Bool.eq_false_iff.mpr hmark)⟩
      obtain ⟨front, back, heq⟩ := List.append_of_mem hmem
      exact hlacks front back (by rw [heq, List.append_assoc, List.singleton_append])
  · exact .inl rfl

/-- A declaration is written once. -/
theorem weexDeclaration_weexDeclaration (h : Text.Trimmed cs) :
    weexDeclaration (Text.trimChars (weexDeclaration cs)) = weexDeclaration cs := by
  rcases weexDeclaration_cases cs with heq | ⟨property, value, rfl, hcolon, hlacks⟩
  · rw [heq, h.trimChars_eq, heq]
  · have hpart := Text.trimChars_infix property
    have hproperty := Text.trimmed_trimChars property
    have hvalue := trimmed_weexValue (Text.trimmed_trimChars value)
    rw [weexDeclaration_eq hcolon hlacks, hproperty.trimChars_append_cons (by decide),
      weexDeclaration_eq (fun hmem => hcolon (hpart.subset hmem)) (hlacks.of_infix hpart),
      hproperty.trimChars_eq, hvalue.trimChars_trimEndChars (by decide), weexValue_weexValue]

theorem trimChars_weexDeclaration_ne_nil (h : Text.Trimmed cs) (hne : cs ≠ []) :
    Text.trimChars (weexDeclaration cs) ≠ [] := by
  rcases weexDeclaration_cases cs with heq | ⟨property, value, rfl, hcolon, hlacks⟩
  · rwa [heq, h.trimChars_eq]
  · rw [weexDeclaration_eq hcolon hlacks,
      (Text.trimmed_trimChars property).trimChars_append_cons (by decide)]
    simp

/-! ### Styles that have been written -/

theorem mem_splitDeclarations {declaration : List Char} (h : declaration ∈ splitDeclarations cs) :
    Text.Trimmed declaration ∧ declaration ≠ [] := by
  obtain ⟨hmem, hne⟩ := List.mem_filter.mp h
  obtain ⟨part, -, rfl⟩ := List.mem_map.mp hmem
  exact ⟨Text.trimmed_trimChars part, by simpa using hne⟩

theorem pieces_splitDeclarations (cs : List Char) :
    Nesting.Pieces quoting ';' (splitDeclarations cs) :=
  ((Nesting.pieces_splitTop rfl cs).map rfl fun part _ => skeleton_trimChars part).filter _

/-- Pieces with semicolons between them have these pieces as declarations. -/
theorem splitDeclarations_intercalate {pieces : List (List Char)}
    (h : Nesting.Pieces quoting ';' pieces) :
    splitDeclarations ([';'].intercalate pieces)
      = (pieces.map Text.trimChars).filter fun part => !part.isEmpty := by
  cases pieces with
  | nil => rfl
  | cons piece pieces =>
      unfold splitDeclarations
      rw [h.splitTop_intercalate (by decide) (List.cons_ne_nil piece pieces)]

/-- No declaration is lost, joined with another one or cut in two. -/
theorem splitDeclarations_weex (cs : List Char) : splitDeclarations (weex cs)
    = (splitDeclarations cs).map fun declaration => Text.trimChars (weexDeclaration declaration) := by
  have hpieces := (pieces_splitDeclarations cs).map rfl fun declaration _ =>
    skeleton_weexDeclaration declaration
  unfold weex
  rw [splitDeclarations_intercalate hpieces, List.map_map, List.filter_eq_self.mpr ?_]
  · rfl
  · intro part hpart
    obtain ⟨declaration, hmem, rfl⟩ := List.mem_map.mp hpart
    obtain ⟨htrimmed, hne⟩ := mem_splitDeclarations hmem
    simpa using trimChars_weexDeclaration_ne_nil htrimmed hne

/-- A declaration of a style is a style, and the only declaration of it. -/
theorem weex_eq_weexDeclaration {declaration : List Char}
    (h : declaration ∈ splitDeclarations cs) : weex declaration = weexDeclaration declaration := by
  obtain ⟨htrimmed, hne⟩ := mem_splitDeclarations h
  have hpieces : Nesting.Pieces quoting ';' [declaration] :=
    ⟨fun piece hpiece => List.mem_singleton.mp hpiece ▸
      (pieces_splitDeclarations cs).unbroken declaration h, List.pairwise_singleton _ _⟩
  have hone : splitDeclarations declaration = [declaration] := by
    have hsplit := splitDeclarations_intercalate hpieces
    rw [List.intercalate_singleton, List.map_singleton, htrimmed.trimChars_eq,
      List.filter_eq_self.mpr (by simpa using hne)] at hsplit
    exact hsplit
  unfold weex
  rw [hone, List.map_singleton, List.intercalate_singleton]

theorem weex_weex (cs : List Char) : weex (weex cs) = weex cs := by
  have hwritten : weex (weex cs) = [';'].intercalate
      ((splitDeclarations (weex cs)).map weexDeclaration) := rfl
  rw [hwritten, splitDeclarations_weex, List.map_map, weex]
  refine congrArg _ (List.map_congr_left fun declaration hmem => ?_)
  exact weexDeclaration_weexDeclaration (mem_splitDeclarations hmem).1

/-- A semicolon outside brackets and quotes separates declarations. -/
theorem splitDeclarations_append {front : List Char}
    (hscan : Nesting.scan quoting .outside front = .outside) (back : List Char) :
    splitDeclarations (front ++ ';' :: back) = splitDeclarations front ++ splitDeclarations back := by
  unfold splitDeclarations
  rw [Nesting.splitTop_append_separator (by decide) hscan, List.map_append, List.filter_append]

theorem intercalate_append_of_ne_nil {separator : List Char} {front back : List (List Char)}
    (hfront : front ≠ []) (hback : back ≠ []) :
    separator.intercalate (front ++ back)
      = separator.intercalate front ++ separator ++ separator.intercalate back := by
  induction front with
  | nil => exact absurd rfl hfront
  | cons piece front ih =>
      rw [List.cons_append, List.intercalate_cons_of_ne_nil
        (List.append_ne_nil_of_right_ne_nil front hback)]
      by_cases hrest : front = []
      · rw [hrest, List.intercalate_singleton, List.nil_append]
      · rw [ih hrest, List.intercalate_cons_of_ne_nil hrest]
        simp only [List.append_assoc]

theorem weex_append {front back : List Char}
    (hscan : Nesting.scan quoting .outside front = .outside) (hfront : splitDeclarations front ≠ [])
    (hback : splitDeclarations back ≠ []) :
    weex (front ++ ';' :: back) = weex front ++ ';' :: weex back := by
  unfold weex
  rw [splitDeclarations_append hscan, List.map_append, intercalate_append_of_ne_nil (by simpa)
    (by simpa), List.append_assoc, List.singleton_append]

/-- The declarations of a style. -/
def declarations (style : String) : List String :=
  (splitDeclarations style.toList).map String.ofList

theorem toList_normalize_weex (config : Option StyleConfig) (style : String) :
    (normalize .weex config style).toList = weex style.toList :=
  String.toList_ofList

/-- A style for weex is written declaration by declaration: what has been written has as many
declarations as before, each of them written by itself.  What has been written is not changed
again.  And a semicolon outside brackets and quotes, between texts that each have a declaration,
separates what can be written apart. -/
theorem normalize_weex (config : Option StyleConfig) :
    (∀ style : String, declarations (normalize .weex config style)
      = (declarations style).map fun declaration =>
          Text.trim (normalize .weex config declaration)) ∧
    (∀ style : String,
      normalize .weex config (normalize .weex config style) = normalize .weex config style) ∧
    ∀ front back : String, declarations front ≠ [] → declarations back ≠ [] →
      (Nesting.scan quoting .outside front.toList).quote = none →
      (Nesting.scan quoting .outside front.toList).depth = 0 →
      normalize .weex config (front ++ ";" ++ back)
        = normalize .weex config front ++ ";" ++ normalize .weex config back := by
  refine ⟨fun style => ?_, fun style => ?_, fun front back hfront hback hquote hdepth => ?_⟩
  · unfold declarations
    rw [toList_normalize_weex, splitDeclarations_weex, List.map_map, List.map_map]
    refine List.map_congr_left fun declaration hmem => ?_
    unfold Text.trim
    rw [Function.comp_apply, Function.comp_apply, toList_normalize_weex, String.toList_ofList,
      weex_eq_weexDeclaration hmem]
  · rw [← String.toList_inj, toList_normalize_weex, toList_normalize_weex, weex_weex]
  · have hscan : Nesting.scan quoting .outside front.toList = .outside :=
      (Nesting.plain_scan rfl Nesting.plain_outside front.toList).eq_outside hquote hdepth
    have hchars : (front ++ ";" ++ back).toList = front.toList ++ ';' :: back.toList := by
      rw [String.toList_append, String.toList_append, List.append_assoc]
      rfl
    rw [← String.toList_inj, toList_normalize_weex, hchars,
      weex_append hscan (by simpa [declarations] using hfront) (by simpa [declarations] using hback),
      String.toList_append, String.toList_append, toList_normalize_weex, toList_normalize_weex,
      List.append_assoc]
    rfl

/-- Semicolons in brackets and quotes, a blank declaration, and a bracket too many. -/
theorem normalize_weex_semicolons :
    normalize .weex none ("background :url(a;b.png); ; content:';') " ++ ";" ++ "COLOR:  Red")
        = normalize .weex none "background :url(a;b.png); ; content:';') " ++ ";"
          ++ normalize .weex none "COLOR:  Red" ∧
      normalize .weex none "background :url(a;b.png); ; content:';') "
        = "background: url(a;b.png);content: ';')" :=
  ⟨(normalize_weex none).2.2 _ _ (by decide +kernel) (by decide +kernel) (by decide +kernel)
    (by decide +kernel), by decide +kernel⟩

end Style

end TemplateCompiler
