/-
Static styles in which quotes are spelled out.

Weex wants declarations, which are cut at the semicolons outside brackets and quotes.  The
semicolon that ends a spelled out quote is such a semicolon, unless brackets or single quotes are
around it; and what stood between two quotes, protected by them, no longer is.  So a style is cut
alike in both spellings if every double quote is enclosed by something else and encloses nothing
that the scan looks at.  Expressions in a style are like that: they stand between braces.

Everything else that is done to a style goes from one end to the other and pays no heed to quotes.
-/
import TemplateCompiler.Proofs.Colors
import TemplateCompiler.Proofs.Escaping
import TemplateCompiler.Proofs.Pieces

namespace TemplateCompiler

namespace Style

/-! ### Cutting into declarations -/

/-- From where the scan stands, every double quote is enclosed in brackets or single quotes, and
between double quotes there are no brackets and no single quotes. -/
def enclosesQuotes (s : Nesting) : List Char → Bool
  | [] => true
  | c :: rest =>
    (match s.quote with
      | none => c != '"' || s.depth != 0
      | some mark => mark != '"' || !(c == '\'' || Nesting.isOpening c || Nesting.isClosing c)) &&
      enclosesQuotes (s.step quoting c) rest

/-- Every double quote of the style is enclosed, and none encloses anything that matters. -/
def QuotesEnclosed (style : String) : Prop := enclosesQuotes .outside style.toList = true

instance (style : String) : Decidable (QuotesEnclosed style) :=
  inferInstanceAs (Decidable (_ = true))

/-- Where the scan of the other spelling stands: what is between double quotes is, in that
spelling, between none. -/
def spelled (s : Nesting) : Nesting := if s.quote = some '"' then { s with quote := none } else s

/-- Where the scan of a style may stand whose quotes are enclosed. -/
inductive Standing : Nesting → Prop
  | outside (depth : Nat) : Standing ⟨depth, none, false⟩
  | single (depth : Nat) : Standing ⟨depth, some '\'', false⟩
  | double (depth : Nat) : Standing ⟨depth + 1, some '"', false⟩

variable {s : Nesting} {cs : List Char}

/-- A double quote changes where the scan stands in the one spelling only, and in the other its
characters change nothing. -/
theorem Standing.step_quote (hs : Standing s) (h : enclosesQuotes s ('"' :: cs) = true) :
    Standing (s.step quoting '"') ∧ spelled (s.step quoting '"') = spelled s ∧
      ∀ c ∈ "&quot;".toList, (spelled s).step quoting c = spelled s ∧
        (c == ';' && (spelled s).atTop quoting c) = false := by
  -- Characters of the spelling are neither marks nor brackets, and the semicolon is not at the top.
  have hplain : ∀ depth, ∀ c ∈ "&quot;".toList,
      (⟨depth + 1, none, false⟩ : Nesting).step quoting c = ⟨depth + 1, none, false⟩ ∧
        (c == ';' && (⟨depth + 1, none, false⟩ : Nesting).atTop quoting c) = false := by
    intro depth c hc
    have hall : "&quot;".toList.all (fun c => quoting.marks.contains c == false &&
        Nesting.isOpening c == false && Nesting.isClosing c == false) = true := by decide
    have hneutral := List.all_eq_true.mp hall c hc
    rw [Bool.and_eq_true, Bool.and_eq_true, beq_iff_eq, beq_iff_eq, beq_iff_eq] at hneutral
    obtain ⟨⟨hmark, hopen⟩, hclose⟩ := hneutral
    refine ⟨?_, ?_⟩
    · unfold Nesting.step
      dsimp only
      rw [hmark, hopen, hclose]
      rfl
    · exact Bool.and_false _
  cases hs with
  | outside depth =>
      cases depth with
      | zero => cases h
      | succ depth => exact ⟨.double depth, rfl, hplain depth⟩
  | single depth =>
      refine ⟨.single depth, rfl, fun c hc => ?_⟩
      have hall : "&quot;".toList.all (fun c => (c == '\'') == false) = true := by decide
      have hneutral := beq_iff_eq.mp (List.all_eq_true.mp hall c hc)
      refine ⟨?_, Bool.and_false _⟩
      show (⟨depth, some '\'', false⟩ : Nesting).step quoting c = ⟨depth, some '\'', false⟩
      unfold Nesting.step
      dsimp only
      rw [hneutral]
      rfl
  | double depth => exact ⟨.outside (depth + 1), rfl, hplain depth⟩

/-- Any other character does the same to both scans. -/
theorem Standing.step_other (hs : Standing s) {c : Char} (hc : c ≠ '"')
    (h : enclosesQuotes s (c :: cs) = true) :
    Standing (s.step quoting c) ∧ spelled (s.step quoting c) = (spelled s).step quoting c ∧
      (c == ';' && (spelled s).atTop quoting c) = (c == ';' && s.atTop quoting c) := by
  have hmarks : quoting.marks.contains c = (c == '\'') := by
    show (c == '\'' || (c == '"' || false)) = _
    rw [beq_eq_false_iff_ne.mpr hc, Bool.or_false, Bool.or_false]
  have hself : ∀ {s : Nesting}, s.quote ≠ some '"' → spelled s = s := fun h => if_neg h
  cases hs with
  | outside depth =>
      have hnext : Standing ((⟨depth, none, false⟩ : Nesting).step quoting c) ∧
          ((⟨depth, none, false⟩ : Nesting).step quoting c).quote ≠ some '"' := by
        unfold Nesting.step
        dsimp only
        rw [hmarks]
        split
        · rename_i hsingle
          rw [beq_iff_eq.mp hsingle]
          exact ⟨.single depth, by simp⟩
        · split
          · exact ⟨.outside _, by simp⟩
          · split
            · exact ⟨.outside _, by simp⟩
            · exact ⟨.outside _, by simp⟩
      exact ⟨hnext.1, hself hnext.2, rfl⟩
  | single depth =>
      have hstep : (⟨depth, some '\'', false⟩ : Nesting).step quoting c
          = if c == '\'' then ⟨depth, none, false⟩ else ⟨depth, some '\'', false⟩ := rfl
      have hnext : Standing ((⟨depth, some '\'', false⟩ : Nesting).step quoting c) ∧
          ((⟨depth, some '\'', false⟩ : Nesting).step quoting c).quote ≠ some '"' := by
        rw [hstep]
        split
        · exact ⟨.outside depth, by simp⟩
        · exact ⟨.single depth, by simp⟩
      exact ⟨hnext.1, hself hnext.2, rfl⟩
  | double depth =>
      have hstep : (⟨depth + 1, some '"', false⟩ : Nesting).step quoting c
          = ⟨depth + 1, some '"', false⟩ := by
        show (if c == '"' then _ else _) = _
        rw [beq_eq_false_iff_ne.mpr hc]
        rfl
      have hneutral : (⟨depth + 1, none, false⟩ : Nesting).step quoting c
          = ⟨depth + 1, none, false⟩ := by
        have hhere : (!(c == '\'' || Nesting.isOpening c || Nesting.isClosing c)) = true :=
          (Bool.and_eq_true_iff.mp h).1
        rw [Bool.not_eq_true', Bool.or_eq_false_iff, Bool.or_eq_false_iff] at hhere
        unfold Nesting.step
        dsimp only
        rw [hmarks, hhere.1.1, hhere.1.2, hhere.2]
        rfl
      rw [hstep]
      refine ⟨.double depth, hneutral.symm, ?_⟩
      exact (Bool.and_false _).trans (Bool.and_false _).symm

/-- The parts between semicolons are the same in both spellings. -/
theorem splitTop_escapeValue (hs : Standing s) (h : enclosesQuotes s cs = true) :
    Nesting.splitTop quoting ';' (spelled s) (escapeValue cs)
      = (Nesting.splitTop quoting ';' s cs).map escapeValue := by
  induction cs generalizing s with
  | nil => rfl
  | cons c cs ih =>
      have hrest : enclosesQuotes (s.step quoting c) cs = true := (Bool.and_eq_true_iff.mp h).2
      by_cases hc : c = '"'
      · subst hc
        obtain ⟨hnext, hsame, hplain⟩ := hs.step_quote h
        obtain ⟨hunbroken, hscan⟩ := Nesting.unbroken_of_forall hplain
        have hpieces := ih hnext hrest
        rw [hsame] at hpieces
        rw [escapeValue_quote, hunbroken.splitTop_append, hscan, hpieces, Nesting.splitTop]
        cases Nesting.splitTop quoting ';' (s.step quoting '"') cs <;> rfl
      · obtain ⟨hnext, hsame, htop⟩ := hs.step_other hc h
        have hpieces := ih hnext hrest
        rw [hsame] at hpieces
        rw [escapeValue_cons_of_ne hc, Nesting.splitTop, Nesting.splitTop, hpieces, htop]
        split
        · rfl
        · cases Nesting.splitTop quoting ';' (s.step quoting c) cs with
          | nil => rfl
          | cons piece pieces =>
              exact congrArg (· :: pieces.map escapeValue) (escapeValue_cons_of_ne hc piece).symm

theorem splitDeclarations_escapeValue (h : enclosesQuotes .outside cs = true) :
    splitDeclarations (escapeValue cs) = (splitDeclarations cs).map escapeValue := by
  have hparts : Nesting.splitTop quoting ';' .outside (escapeValue cs)
      = (Nesting.splitTop quoting ';' .outside cs).map escapeValue :=
    splitTop_escapeValue (.outside 0) h
  have htrim : Text.trimChars ∘ escapeValue = escapeValue ∘ Text.trimChars :=
    funext Text.trimChars_escapeValue
  have hempty : (fun part : List Char => !part.isEmpty) ∘ escapeValue = fun part => !part.isEmpty :=
    funext fun part => congrArg Bool.not (isEmpty_escapeValue part)
  unfold splitDeclarations
  rw [hparts, List.map_map, htrim, ← List.map_map, List.filter_map, hempty]

/-! ### Declarations -/

/-- Replacing the unit of lengths brings in no characters but those of the unit. -/
theorem not_mem_withUnit {unit : List Char} {d : Char} (hunit : d ∉ unit) {cs : List Char}
    (h : d ∉ cs) : d ∉ withUnit unit cs := by
  unfold withUnit
  fun_induction Length.replaceAll (· ++ unit) cs with
  | case1 => exact h
  | case2 c rest number left hsplit ih =>
      rw [(Length.split?_eq hsplit).1, List.mem_append, not_or] at h
      have hleft : d ∉ left := fun hmem => h.2 (by simp [hmem])
      rw [List.mem_append, List.mem_append]
      exact not_or_intro (not_or_intro h.1 hunit) (ih hleft)
  | case3 c rest hnone ih =>
      rw [List.mem_cons, not_or] at h
      rw [List.mem_cons]
      exact not_or_intro h.1 (ih h.2)

theorem withUnit_escapeValue {unit : List Char} (hunit : '"' ∉ unit) (cs : List Char) :
    withUnit unit (escapeValue cs) = escapeValue (withUnit unit cs) := by
  have hnone : '"' ∉ withUnit unit (escapeValue cs) :=
    not_mem_withUnit hunit (Token.not_mem_escapeValue cs)
  rw [← escapeValue_eq_self hnone]
  exact Length.escapeValue_replaceAll _ cs

end Style

/-! ### Colours -/

namespace Color

theorem normalize_escapeValue (word : List Char) :
    escapeValue (normalize (escapeValue word)) = escapeValue (normalize word) := by
  by_cases hquote : '"' ∈ word
  · have hspelled : '&' ∈ escapeValue word := List.mem_flatMap.mpr ⟨'"', hquote, by decide⟩
    rw [normalize_eq_self hquote (by decide) (by decide),
      normalize_eq_self hspelled (by decide) (by decide), escapeValue_escapeValue]
  · rw [escapeValue_eq_self hquote]

end Color

namespace Style

theorem isSome_cutChars_escapeValue (cs : List Char) :
    (Text.cutChars interpolationMark (escapeValue cs)).isSome
      = (Text.cutChars interpolationMark cs).isSome := by
  unfold interpolationMark
  rw [Text.cutChars_escapeValue (by decide) (by decide), Option.isSome_map]

theorem weexValue_escapeValue (cs : List Char) :
    escapeValue (weexValue (escapeValue cs)) = escapeValue (weexValue cs) := by
  have hblank : '"' ∉ [' '] := by decide
  unfold weexValue
  dsimp only
  rw [withUnit_escapeValue (by decide), isSome_cutChars_escapeValue]
  split
  · exact escapeValue_escapeValue _
  · rw [Text.wordsChars_escapeValue, escapeValue_intercalate hblank,
      escapeValue_intercalate hblank, List.map_map, List.map_map, List.map_map]
    refine congrArg _ (List.map_congr_left fun word _ => ?_)
    exact Color.normalize_escapeValue word

theorem weexDeclaration_escapeValue (cs : List Char) :
    escapeValue (weexDeclaration (escapeValue cs)) = escapeValue (weexDeclaration cs) := by
  unfold weexDeclaration
  rw [Text.cutChars_escapeValue (by decide) (by decide)]
  cases Text.cutChars [':'] cs with
  | none => exact escapeValue_escapeValue cs
  | some parts =>
      obtain ⟨property, value⟩ := parts
      dsimp only [Option.map_some]
      rw [isSome_cutChars_escapeValue, Text.trimChars_escapeValue, Text.trimChars_escapeValue]
      split
      · exact escapeValue_escapeValue cs
      · have hcolon : ∀ front back : List Char, escapeValue (front ++ ':' :: ' ' :: back)
            = escapeValue front ++ ':' :: ' ' :: escapeValue back := by
          intro front back
          rw [escapeValue_append, escapeValue_cons_of_ne (by decide),
            escapeValue_cons_of_ne (by decide)]
        rw [hcolon, hcolon, escapeValue_escapeValue, weexValue_escapeValue]

theorem weex_escapeValue {cs : List Char} (h : enclosesQuotes .outside cs = true) :
    escapeValue (weex (escapeValue cs)) = escapeValue (weex cs) := by
  have hsemicolon : '"' ∉ [';'] := by decide
  unfold weex
  rw [splitDeclarations_escapeValue h, escapeValue_intercalate hsemicolon,
    escapeValue_intercalate hsemicolon, List.map_map, List.map_map, List.map_map]
  refine congrArg _ (List.map_congr_left fun part _ => ?_)
  exact weexDeclaration_escapeValue part

/-- A static style is written for a platform whatever the spelling of its quotes, unless it is cut
into declarations inside one of them. -/
theorem escapeText_normalize {target : Target} (config : Option StyleConfig) {style : String}
    (hweex : target.dialect.isWeex = true → QuotesEnclosed style) :
    escapeText (normalize target config (escapeText style))
      = escapeText (normalize target config style) := by
  unfold normalize normalizeChars
  rw [toList_escapeText, escapeText_ofList, escapeText_ofList]
  split
  · rename_i h
    rw [weex_escapeValue (hweex h)]
  · unfold withUnit
    split <;> rw [Length.escapeValue_replaceAll]

end Style

end TemplateCompiler
