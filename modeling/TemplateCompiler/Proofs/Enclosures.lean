/-
What stands between quotes or parentheses in a style for weex.

A style is cut outside brackets and quotes, but what is done to the values pays no heed to
either.  Lengths, colours and blanks between quotes are written like all others, so a literal is
kept only if it holds nothing that could be written in another way.

Yet quotes and parentheses part what is written: no length and no colour has one in it, and
none is a blank.  So whatever is done to a value is done on both sides of them by itself, and
what is enclosed by two of them is written as if it stood alone.  This is said once of the
steps of writing a value (`Parted`) and holds of all of them together.
-/
import TemplateCompiler.Proofs.Units
import TemplateCompiler.Proofs.WeexStyle

namespace TemplateCompiler

/-! ### Lengths on both sides of a character -/

namespace Length

variable {d : Char}

theorem splitDigits_append (hd : Stops d) (front back : List Char) :
    splitDigits (front ++ d :: back)
      = ((splitDigits front).1, (splitDigits front).2 ++ d :: back) := by
  unfold splitDigits
  induction front with
  | nil => simp [hd.digit]
  | cons c front ih =>
      cases hc : isWordDigit c with
      | true => simpa [hc] using ih
      | false => simp [hc]

theorem splitUnsigned?_append (hd : Stops d) (front back : List Char) :
    splitUnsigned? (front ++ d :: back)
      = (splitUnsigned? front).map fun (number, rest) => (number, rest ++ d :: back) := by
  unfold splitUnsigned?
  rw [splitDigits_append hd]
  obtain ⟨whole, rest⟩ := splitDigits front
  dsimp only
  cases rest with
  | nil => cases whole <;> simp [hd.point]
  | cons c rest =>
      by_cases hpoint : c = '.'
      · subst hpoint
        cases whole with
        | nil =>
            simp only [List.cons_append, splitDigits_append hd]
            obtain ⟨fraction, left⟩ := splitDigits rest
            cases fraction <;> rfl
        | cons e whole =>
            show some (e :: whole ++ '.' :: (splitDigits (rest ++ d :: back)).1,
              (splitDigits (rest ++ d :: back)).2) = _
            rw [splitDigits_append hd]
            rfl
      · cases whole <;> simp [hpoint]

theorem splitNumber?_append (hd : Stops d) (front back : List Char) :
    splitNumber? (front ++ d :: back)
      = (splitNumber? front).map fun (number, rest) => (number, rest ++ d :: back) := by
  cases front with
  | nil => exact (splitNumber?_of_ne hd.sign).trans (splitUnsigned?_append hd [] back)
  | cons c front =>
      by_cases hsign : c = '-'
      · subst hsign
        show (splitUnsigned? (front ++ d :: back)).map _ = ((splitUnsigned? front).map _).map _
        rw [splitUnsigned?_append hd, Option.map_map, Option.map_map]
        rfl
      · rw [List.cons_append, splitNumber?_of_ne hsign, splitNumber?_of_ne hsign]
        exact splitUnsigned?_append hd (c :: front) back

theorem splitUnit?_append (hd : Stops d) (front back : List Char) :
    splitUnit? (front ++ d :: back) = (splitUnit? front).map (· ++ d :: back) := by
  match front with
  | [] => simp [splitUnit?, hd.letter 'c' (by simp)]
  | [c₁] => simp [splitUnit?, hd.letter 'p' (by simp)]
  | [c₁, c₂] => simp [splitUnit?, hd.letter 'x' (by simp)]
  | c₁ :: c₂ :: c₃ :: rest =>
      by_cases hunit : c₁ = 'c' ∧ c₂ = 'p' ∧ c₃ = 'x'
      · obtain ⟨rfl, rfl, rfl⟩ := hunit
        show (if wordEndsBefore (rest ++ d :: back) then some (rest ++ d :: back) else none) = _
        rw [(hd.mirrors back).ends]
        simp only [splitUnit?]
        split <;> rfl
      · have hnone : ∀ rest, splitUnit? (c₁ :: c₂ :: c₃ :: rest) = none := by
          intro rest
          unfold splitUnit?
          split
          · rename_i heq
            cases heq
            exact absurd ⟨rfl, rfl, rfl⟩ hunit
          · rfl
        rw [hnone]
        exact hnone (rest ++ d :: back)

theorem split?_append (hd : Stops d) (front back : List Char) :
    split? (front ++ d :: back)
      = (split? front).map fun (number, rest) => (number, rest ++ d :: back) := by
  unfold split?
  rw [splitNumber?_append hd]
  cases splitNumber? front with
  | none => rfl
  | some parts =>
      dsimp only [Option.map_some]
      rw [splitUnit?_append hd, Option.map_map, Option.map_map]
      rfl

/-- Lengths are written on both sides of such a character by themselves. -/
theorem replaceAll_append (hd : Stops d) (f : List Char → List Char) (front back : List Char) :
    replaceAll f (front ++ d :: back) = replaceAll f front ++ d :: replaceAll f back := by
  fun_induction replaceAll f front with
  | case1 => exact replaceAll_of_none f (split?_append hd [] back)
  | case2 c rest number left hsplit ih =>
      have hwhole := split?_append hd (c :: rest) back
      rw [hsplit, List.cons_append, Option.map_some] at hwhole
      rw [List.cons_append, replaceAll_of_some f hwhole, ih, List.append_assoc]
  | case3 c rest hnone ih =>
      have hwhole := split?_append hd (c :: rest) back
      rw [hnone, List.cons_append, Option.map_none] at hwhole
      rw [List.cons_append, replaceAll_of_none f hwhole, ih]
      rfl

end Length

/-! ### Words on both sides of a character -/

theorem intercalate_cut {α : Type} (separator : List α) (front back : List (List α))
    (before part after : List α) :
    separator.intercalate (front ++ (before ++ (part ++ after)) :: back)
      = separator.intercalate (front ++ [before]) ++ (part ++ separator.intercalate (after :: back)) := by
  induction front with
  | nil =>
      cases back with
      | nil => simp
      | cons next back => simp [List.intercalate_cons_cons]
  | cons piece front ih =>
      rw [List.cons_append, List.cons_append, List.intercalate_cons_of_ne_nil (by simp),
        List.intercalate_cons_of_ne_nil (by simp), ih]
      simp only [List.append_assoc]

/-- A character that is no blank belongs to the last word before it and to the first one after it. -/
theorem Text.wordsChars_cut {d : Char} (hd : isBlank d = false) (front back : List Char) :
    ∃ words word word' words', wordsChars (front ++ [d]) = words ++ [word ++ [d]] ∧
      wordsChars (d :: back) = (d :: word') :: words' ∧
      wordsChars (front ++ d :: back) = words ++ (word ++ d :: word') :: words' := by
  obtain ⟨word', others, hsplit⟩ :=
    List.exists_cons_of_ne_nil (List.splitOnP_ne_nil isBlank back)
  have hwords : ∀ word, (∀ c ∈ word, isBlank c = false) → wordsChars (word ++ d :: back)
      = (word ++ d :: word') :: others.filter fun word => !word.isEmpty := by
    intro word hword
    have hplain : ∀ c ∈ word ++ [d], isBlank c = false := by
      simpa [or_imp, forall_and, hd] using hword
    unfold wordsChars
    rw [← List.singleton_append, ← List.append_assoc, splitOnP_append hplain, hsplit,
      List.modifyHead_cons, List.filter_cons_of_pos (by simp), List.append_assoc]
    rfl
  induction front using wordsInduction with
  | clear front hfront =>
      refine ⟨[], front, word', others.filter fun word => !word.isEmpty, ?_, hwords [] nofun,
        hwords front hfront⟩
      have hplain : ∀ c ∈ front ++ [d], isBlank c = false := by
        simpa [or_imp, forall_and, hd] using hfront
      rw [wordsChars_of_forall hplain, if_neg (by simp)]
      rfl
  | cut front c rest hfront hc ih =>
      obtain ⟨words, word, word', words', hfirst, hlast, hwhole⟩ := ih
      refine ⟨wordsChars front ++ words, word, word', words', ?_, hlast, ?_⟩
      · rw [List.append_assoc, List.cons_append, wordsChars_append_blank front hc, hfirst,
          List.append_assoc]
      · rw [List.append_assoc, List.cons_append, wordsChars_append_blank front hc, hwhole,
          List.append_assoc]

namespace Style

variable {f g : List Char → List Char} {cs property value part front body back : List Char}
variable {d o c : Char}

/-! ### Both sides of a delimiter -/

/-- The characters that begin and end literals and arguments. -/
def delimiters : List Char := ['\'', '"', '(', ')']

/-- No blank, no number, no word and no colour has a delimiter in it. -/
theorem delimiter_plain (hd : d ∈ delimiters) :
    isBlank d = false ∧ Length.Stops d ∧ d.isAlphanum = false ∧ d ≠ '#' := by
  have hall : delimiters.all (fun d => !isBlank d && !isWordChar d && d != '.' && d != '-' &&
      !d.isAlphanum && d != '#') = true := by decide +kernel
  have hplain := List.all_eq_true.mp hall d hd
  simp only [Bool.and_eq_true, Bool.not_eq_true', bne_iff_ne] at hplain
  obtain ⟨⟨⟨⟨⟨hblank, hword⟩, hpoint⟩, hsign⟩, halphanum⟩, hhash⟩ := hplain
  exact ⟨hblank, ⟨hword, hpoint, hsign⟩, halphanum, hhash⟩

/-- A way of writing that treats the two sides of a delimiter by themselves and keeps all that
decides where a style is cut. -/
structure Parted (f : List Char → List Char) : Prop where
  cut : ∀ d ∈ delimiters, ∀ front back, ∃ before after, f (front ++ [d]) = before ++ [d] ∧
    f (d :: back) = d :: after ∧ f (front ++ d :: back) = before ++ d :: after
  keeps : ∀ cs, skeleton (f cs) = skeleton cs

theorem Parted.comp (hg : Parted g) (hf : Parted f) : Parted (g ∘ f) where
  cut d hd front back := by
    obtain ⟨before, after, hbefore, hafter, hwhole⟩ := hf.cut d hd front back
    obtain ⟨before', after', hbefore', hafter', hwhole'⟩ := hg.cut d hd before after
    refine ⟨before', after', ?_, ?_, ?_⟩
    · rw [Function.comp_apply, hbefore, hbefore']
    · rw [Function.comp_apply, hafter, hafter']
    · rw [Function.comp_apply, hwhole, hwhole']
  keeps cs := by rw [Function.comp_apply, hg.keeps, hf.keeps]

/-- What delimiters enclose is written as if it stood alone. -/
theorem Parted.enclosed (hf : Parted f) (ho : o ∈ delimiters) (hc : c ∈ delimiters)
    (front body back : List Char) :
    ∃ before after, f (front ++ (o :: body ++ [c]) ++ back)
        = before ++ f (o :: body ++ [c]) ++ after ∧
      skeleton before = skeleton front ∧ skeleton after = skeleton back := by
  obtain ⟨before, rest, hbefore, hrest, hwhole⟩ := hf.cut o ho front (body ++ c :: back)
  obtain ⟨inside, after, hinside, hafter, hpart⟩ := hf.cut c hc (o :: body) back
  have hsame : before ++ (o :: rest) = before ++ (f (o :: body ++ [c]) ++ after) := by
    rw [← hrest, ← List.cons_append, hpart, hinside, List.append_assoc]
    rfl
  have hcs : front ++ (o :: body ++ [c]) ++ back = front ++ o :: (body ++ c :: back) := by simp
  refine ⟨before, after, ?_, ?_, ?_⟩
  · rw [hcs, hwhole, hsame, List.append_assoc]
  · have hskeleton := hf.keeps (front ++ [o])
    rw [hbefore, skeleton_append, skeleton_append] at hskeleton
    exact List.append_cancel_right hskeleton
  · have hskeleton := hf.keeps (c :: back)
    have hcons : ∀ cs, skeleton (c :: cs) = skeleton [c] ++ skeleton cs := skeleton_append [c]
    rw [hafter, hcons after, hcons back] at hskeleton
    exact List.append_cancel_left hskeleton

/-! ### The steps of writing a value -/

theorem parted_trimChars : Parted Text.trimChars where
  cut d hd front back := by
    have hblank := (delimiter_plain hd).1
    have hstart : ∀ back, Text.trimStartChars (front ++ d :: back)
        = Text.trimStartChars front ++ d :: back := by
      intro back
      unfold Text.trimStartChars
      rw [List.dropWhile_append, List.dropWhile_cons_of_neg (by simp [hblank])]
      split
      · rename_i hnil
        rw [List.isEmpty_iff.mp hnil]
        rfl
      · rfl
    have hend : ∀ front back, Text.trimEndChars (front ++ d :: back)
        = front ++ d :: Text.trimEndChars back :=
      fun front back => Text.dropEndWhile_append_cons front hblank back
    refine ⟨Text.trimStartChars front, Text.trimEndChars back, ?_, ?_, ?_⟩
    · rw [Text.trimChars, hstart, hend]
      rfl
    · rw [Text.trimChars, Text.trimStartChars, List.dropWhile_cons_of_neg (by simp [hblank])]
      exact hend [] back
    · rw [Text.trimChars, hstart, hend]
  keeps := skeleton_trimChars

theorem parted_withUnit : Parted (withUnit ['p', 'x']) where
  cut d hd front back := by
    have hcut := Length.replaceAll_append (delimiter_plain hd).2.1 (· ++ ['p', 'x'])
    have hnil : Length.replaceAll (· ++ ['p', 'x']) [] = [] := by rw [Length.replaceAll]
    refine ⟨withUnit ['p', 'x'] front, withUnit ['p', 'x'] back, ?_, ?_, hcut front back⟩
    · exact (hcut front []).trans (by rw [hnil]; rfl)
    · exact (hcut [] back).trans (by rw [hnil]; rfl)
  keeps := skeleton_withUnit rfl

theorem parted_writtenWords : Parted writtenWords where
  cut d hd front back := by
    obtain ⟨hblank, -, halphanum, hhash⟩ := delimiter_plain hd
    have hkept : ∀ word word', Color.normalize (word ++ d :: word') = word ++ d :: word' :=
      fun word word' => Color.normalize_eq_self (by simp) halphanum hhash
    obtain ⟨words, word, word', words', hbefore, hafter, hwhole⟩ :=
      Text.wordsChars_cut hblank front back
    have hcut := intercalate_cut [' '] (words.map Color.normalize) (words'.map Color.normalize)
      word [d] word'
    refine ⟨[' '].intercalate (words.map Color.normalize ++ [word]),
      [' '].intercalate (word' :: words'.map Color.normalize), ?_, ?_, ?_⟩
    · have hlast := intercalate_cut [' '] (words.map Color.normalize) [] word [d] []
      rw [writtenWords, hbefore, List.map_append, List.map_singleton, hkept word []]
      exact hlast.trans (by rw [List.intercalate_singleton, List.append_nil])
    · rw [writtenWords, hafter, List.map_cons]
      exact (congrArg (fun word => [' '].intercalate (word :: words'.map Color.normalize))
        (hkept [] word')).trans (intercalate_cut [' '] [] (words'.map Color.normalize) [] [d] word')
    · rw [writtenWords, hwhole, List.map_append, List.map_cons, hkept]
      exact hcut
  keeps := skeleton_writtenWords

/-! ### Interpolations -/

/-- The text holds the start of an interpolation. -/
def interpolated (cs : List Char) : Bool := (Text.cutChars interpolationMark cs).isSome

theorem interpolated_eq_false_iff :
    interpolated cs = false ↔ Text.Lacks interpolationMark cs :=
  isSome_cutChars_eq_false (by decide)

theorem interpolated_iff : interpolated cs = true ↔ interpolationMark <:+: cs := by
  rw [← not_iff_not, Bool.not_eq_true, interpolated_eq_false_iff]
  constructor
  · rintro hlacks ⟨before, after, heq⟩
    exact hlacks before after heq.symm
  · rintro hinfix before after rfl
    exact hinfix ⟨before, after, rfl⟩

/-- An interpolation begins at the first character or further on. -/
theorem interpolationMark_infix_cons : interpolationMark <:+: c :: cs ↔
    c = '{' ∧ cs.head? = some '{' ∨ interpolationMark <:+: cs := by
  have hprefix : interpolationMark <+: c :: cs ↔ c = '{' ∧ cs.head? = some '{' := by
    unfold interpolationMark
    rw [List.cons_prefix_cons, eq_comm]
    cases cs with
    | nil => simp
    | cons d cs => simp [List.cons_prefix_cons, eq_comm]
  rw [List.infix_cons_iff, hprefix]

/-- Characters before a text that are no braces bring no interpolation in. -/
theorem interpolationMark_infix_append (hfront : '{' ∉ front) :
    interpolationMark <:+: front ++ cs ↔ interpolationMark <:+: cs := by
  induction front with
  | nil => exact Iff.rfl
  | cons c front ih =>
      rw [List.mem_cons, not_or] at hfront
      rw [List.cons_append, interpolationMark_infix_cons, ih hfront.2]
      exact or_iff_right fun h => hfront.1 h.1.symm

/-- Blanks at the ends are not part of an interpolation. -/
theorem interpolated_trimChars (cs : List Char) :
    interpolated (Text.trimChars cs) = interpolated cs := by
  have hdrop : ∀ cs, interpolationMark <:+: cs.dropWhile isBlank ↔ interpolationMark <:+: cs := by
    intro cs
    have hblanks : '{' ∉ cs.takeWhile isBlank := fun hmem =>
      absurd (List.mem_takeWhile_imp hmem) (by decide)
    rw [← interpolationMark_infix_append hblanks, List.takeWhile_append_dropWhile]
  have hreverse : ∀ cs, interpolationMark <:+: cs.reverse ↔ interpolationMark <:+: cs :=
    fun cs => @List.reverse_infix _ interpolationMark cs
  rw [Bool.eq_iff_iff, interpolated_iff, interpolated_iff]
  unfold Text.trimChars Text.trimEndChars Text.dropEndWhile Text.trimStartChars
  rw [hreverse, hdrop, hreverse, hdrop]

/-- Replacing the unit brings no interpolation in and takes none away. -/
theorem interpolated_withUnit (cs : List Char) :
    interpolated (withUnit ['p', 'x'] cs) = interpolated cs := by
  rw [Bool.eq_iff_iff, interpolated_iff, interpolated_iff]
  unfold withUnit
  fun_induction Length.replaceAll (· ++ ['p', 'x']) cs with
  | case1 => exact Iff.rfl
  | case2 c rest number left hsplit ih =>
      obtain ⟨heq, hnumber, -⟩ := Length.split?_eq hsplit
      have hbrace : '{' ∉ number := fun hmem =>
        (hnumber.chars '{' hmem).ne (by decide) (by decide) (by decide) rfl
      have hunit : ∀ unit : List Char, '{' ∉ unit → '{' ∉ number ++ unit := fun unit h hmem =>
        (List.mem_append.mp hmem).elim hbrace h
      have hold : number ++ 'c' :: 'p' :: 'x' :: left = number ++ ['c', 'p', 'x'] ++ left := by simp
      rw [heq, hold, interpolationMark_infix_append (hunit _ (by decide)),
        interpolationMark_infix_append (hunit _ (by decide)), ih]
  | case3 c rest hnone ih =>
      have hhead := head?_withUnit ['p', 'x'] rest
      rw [withUnit] at hhead
      rw [interpolationMark_infix_cons, interpolationMark_infix_cons, hhead, ih]

/-! ### Declarations -/

/-- How a part of the value is written in a declaration of this property and this value. -/
def weexPart (property value part : List Char) : List Char :=
  if interpolated property then part
  else if interpolated value then withUnit ['p', 'x'] part
  else writtenWords (withUnit ['p', 'x'] part)

theorem weexDeclaration_of_interpolated (hcolon : ':' ∉ property)
    (h : interpolated property = true) (value : List Char) :
    weexDeclaration (property ++ ':' :: value) = property ++ ':' :: value := by
  unfold weexDeclaration
  rw [cutChars_colon hcolon]
  exact if_pos h

theorem weexValue_eq (cs : List Char) : weexValue cs
    = if interpolated cs then withUnit ['p', 'x'] cs else writtenWords (withUnit ['p', 'x'] cs) := by
  rw [← interpolated_withUnit]
  rfl

/-- What delimiters enclose in the value of a declaration is written as if it stood alone. -/
theorem weexDeclaration_enclosed (hcolon : ':' ∉ property) (ho : o ∈ delimiters)
    (hc : c ∈ delimiters) (front body back : List Char) :
    ∃ before after, weexDeclaration (property ++ ':' :: (front ++ (o :: body ++ [c]) ++ back))
        = before ++ weexPart property (front ++ (o :: body ++ [c]) ++ back) (o :: body ++ [c])
          ++ after ∧
      skeleton before = skeleton (property ++ ':' :: front) ∧ skeleton after = skeleton back := by
  cases hproperty : interpolated property with
  | true =>
      refine ⟨property ++ ':' :: front, back, ?_, rfl, rfl⟩
      rw [weexDeclaration_of_interpolated hcolon hproperty, weexPart, if_pos hproperty]
      simp
  | false =>
      -- The whole value is written in one of two ways, and each of them is parted.
      obtain ⟨f, hf, hvalue, hpart⟩ : ∃ f, Parted f ∧
          weexValue (Text.trimChars (front ++ (o :: body ++ [c]) ++ back))
            = f (front ++ (o :: body ++ [c]) ++ back) ∧
          weexPart property (front ++ (o :: body ++ [c]) ++ back) (o :: body ++ [c])
            = f (o :: body ++ [c]) := by
        have htrim : Text.trimChars (o :: body ++ [c]) = o :: body ++ [c] :=
          Text.trimChars_eq_self (delimiter_plain ho).1 (delimiter_plain hc).1 body
        have hunits := parted_withUnit.comp parted_trimChars
        rw [weexValue_eq, interpolated_trimChars, weexPart, hproperty]
        cases interpolated (front ++ (o :: body ++ [c]) ++ back) with
        | true => exact ⟨_, hunits, rfl, congrArg (withUnit ['p', 'x']) htrim.symm⟩
        | false =>
            exact ⟨_, parted_writtenWords.comp hunits, rfl,
              congrArg (fun cs => writtenWords (withUnit ['p', 'x'] cs)) htrim.symm⟩
      obtain ⟨before, after, hwhole, hbefore, hafter⟩ := hf.enclosed ho hc front body back
      refine ⟨Text.trimChars property ++ ':' :: ' ' :: before, after, ?_, ?_, hafter⟩
      · rw [weexDeclaration_eq hcolon (interpolated_eq_false_iff.mp hproperty), hvalue, hwhole, hpart]
        simp
      · rw [skeleton_append, skeleton_append, skeleton_trimChars,
          skeleton_cons_of_not (by decide), skeleton_cons_of_not (by decide),
          skeleton_cons_of_not (by decide), hbefore]

/-- What is written is the text itself where it holds no length, no colour and no blanks but
single ones. -/
theorem writtenWords_withUnit_eq_iff : writtenWords (withUnit ['p', 'x'] cs) = cs ↔
    Length.Clear cs ∧ [' '].intercalate (Text.wordsChars cs) = cs ∧
      ∀ word ∈ Text.wordsChars cs, Color.normalize word = word := by
  constructor
  · intro h
    have hclear : Length.Clear cs := by
      rw [← h]
      exact Length.clear_intercalate fun word hword => clear_of_mem_weexWords hword
    have hunit : withUnit ['p', 'x'] cs = cs := hclear.replaceAll_eq _
    rw [hunit] at h
    have hwords : (Text.wordsChars cs).map Color.normalize = Text.wordsChars cs := by
      conv_rhs => rw [← h]
      refine (Text.wordsChars_intercalate fun word hword => ?_).symm
      obtain ⟨old, hold, rfl⟩ := List.mem_map.mp hword
      exact isWord_normalize (Text.isWord_of_mem_wordsChars hold)
    refine ⟨hclear, ?_, fun word hword => ?_⟩
    · rwa [writtenWords, hwords] at h
    · exact List.map_inj_left.mp (hwords.trans (List.map_id _).symm) word hword
  · rintro ⟨hclear, hblanks, hcolours⟩
    rw [show withUnit ['p', 'x'] cs = cs from hclear.replaceAll_eq _, writtenWords,
      List.map_congr_left hcolours, List.map_id', hblanks]

theorem weexPart_eq_iff : weexPart property value part = part ↔
    interpolationMark <:+: property ∨ Length.Clear part ∧ (interpolationMark <:+: value ∨
      [' '].intercalate (Text.wordsChars part) = part ∧
        ∀ word ∈ Text.wordsChars part, Color.normalize word = word) := by
  rw [← interpolated_iff, ← interpolated_iff, weexPart]
  cases interpolated property with
  | true => exact iff_of_true rfl (.inl rfl)
  | false =>
      rw [or_iff_right Bool.false_ne_true, if_neg Bool.false_ne_true]
      cases interpolated value with
      | true =>
          rw [if_pos rfl, and_iff_left (.inl rfl)]
          exact ⟨fun h => h ▸ clear_withUnit part, fun h => h.replaceAll_eq _⟩
      | false =>
          rw [if_neg Bool.false_ne_true, or_iff_right Bool.false_ne_true]
          exact writtenWords_withUnit_eq_iff

/-! ### Styles -/

/-- A literal between two quotes of a kind, or an argument between parentheses, whatever it holds. -/
inductive Enclosed : List Char → Prop
  | literal {mark : Char} (h : mark ∈ quoting.marks) (body : List Char) :
    Enclosed (mark :: body ++ [mark])
  | argument (body : List Char) : Enclosed ('(' :: body ++ [')'])

theorem Enclosed.exists_delimiters (h : Enclosed part) :
    ∃ o ∈ delimiters, ∃ c ∈ delimiters, ∃ body, part = o :: body ++ [c] := by
  have hmarks : quoting.marks ⊆ delimiters := by decide
  cases h with
  | literal hmark body => exact ⟨_, hmarks hmark, _, hmarks hmark, body, rfl⟩
  | argument body => exact ⟨'(', by decide, ')', by decide, body, rfl⟩

/-- Where something enclosed stands in a style, its written form stands in the written style. -/
theorem weex_enclosed {earlier later : List (List Char)} (hpart : Enclosed part)
    (hcolon : ':' ∉ property) (hstyle : splitDeclarations cs
      = earlier ++ (property ++ ':' :: (front ++ part ++ back)) :: later) :
    ∃ before after, weex cs = before ++ weexPart property (front ++ part ++ back) part ++ after ∧
      skeleton before = skeleton ([';'].intercalate (earlier ++ [property ++ ':' :: front])) ∧
      skeleton after = skeleton ([';'].intercalate (back :: later)) := by
  obtain ⟨o, ho, c, hc, body, rfl⟩ := hpart.exists_delimiters
  obtain ⟨before, after, hwritten, hbefore, hafter⟩ :=
    weexDeclaration_enclosed hcolon ho hc front body back
  have hmap : ∀ pieces : List (List Char),
      (pieces.map weexDeclaration).map skeleton = pieces.map skeleton := fun pieces =>
    List.map_map.trans (List.map_congr_left fun piece _ => skeleton_weexDeclaration piece)
  refine ⟨[';'].intercalate (earlier.map weexDeclaration ++ [before]),
    [';'].intercalate (after :: later.map weexDeclaration), ?_, ?_, ?_⟩
  · rw [weex, hstyle, List.map_append, List.map_cons, hwritten, List.append_assoc before,
      intercalate_cut]
    exact (List.append_assoc _ _ _).symm
  · rw [skeleton_intercalate, skeleton_intercalate, List.map_append, List.map_append, hmap,
      List.map_singleton, List.map_singleton, hbefore]
  · rw [skeleton_intercalate, skeleton_intercalate, List.map_cons, List.map_cons, hmap, hafter]

/-- What is enclosed in quotes or parentheses in the value of a declaration is written as it would
be anywhere else, and stands between the same quotes, brackets and semicolons as before.  It is kept
if its property holds an interpolation; otherwise it is kept exactly if it holds no length and,
unless the value holds an interpolation, its words are no colours and have single blanks between
them. -/
theorem normalize_enclosed (config : Option StyleConfig) {style : String}
    {earlier later : List String} {property front part back : String}
    (hpart : Enclosed part.toList) (hcolon : ':' ∉ property.toList)
    (hstyle : declarations style
      = earlier ++ (property ++ ":" ++ front ++ part ++ back) :: later) :
    ∃ before written after : String,
      normalize .weex config style = before ++ written ++ after ∧
      skeleton before.toList
        = skeleton (";".intercalate (earlier ++ [property ++ ":" ++ front])).toList ∧
      skeleton after.toList = skeleton (";".intercalate (back :: later)).toList ∧
      written.toList = weexPart property.toList (front ++ part ++ back).toList part.toList ∧
      (written = part ↔ interpolationMark <:+: property.toList ∨
        (∀ i, ¬ Length.UnitAt part.toList i) ∧
          (interpolationMark <:+: (front ++ part ++ back).toList ∨
            " ".intercalate (Text.words part) = part ∧
              ∀ word ∈ Text.words part, Color.normalize word.toList = word.toList)) := by
  have hvalue : (front ++ part ++ back).toList = front.toList ++ part.toList ++ back.toList := by
    rw [String.toList_append, String.toList_append]
  have hcolons : ∀ value : String, (property ++ ":" ++ value).toList
      = property.toList ++ ':' :: value.toList := fun value => by
    rw [String.toList_append, String.toList_append, List.append_assoc]
    rfl
  have hchars : splitDeclarations style.toList = earlier.map String.toList
      ++ (property.toList ++ ':' :: (front.toList ++ part.toList ++ back.toList))
        :: later.map String.toList := by
    have hdeclaration : property ++ ":" ++ front ++ part ++ back
        = property ++ ":" ++ (front ++ part ++ back) := by simp only [String.append_assoc]
    have hlist := congrArg (List.map String.toList) hstyle
    rw [hdeclaration, List.map_append, List.map_cons, hcolons, hvalue] at hlist
    rw [← hlist, declarations, List.map_map]
    simp
  obtain ⟨before, after, hwritten, hbefore, hafter⟩ := weex_enclosed hpart hcolon hchars
  rw [← hvalue] at hwritten
  have hwords : " ".intercalate (Text.words part) = part
      ↔ [' '].intercalate (Text.wordsChars part.toList) = part.toList := by
    rw [← String.toList_inj, String.toList_intercalate, Text.words, List.map_map]
    simp
  refine ⟨String.ofList before, String.ofList (weexPart property.toList
    (front ++ part ++ back).toList part.toList), String.ofList after, ?_, ?_, ?_, ?_, ?_⟩
  · rw [normalize, ← String.ofList_append, ← String.ofList_append, ← hwritten]
    rfl
  · rw [String.toList_ofList, hbefore, String.toList_intercalate, List.map_append,
      List.map_singleton, hcolons]
    rfl
  · rw [String.toList_ofList, hafter, String.toList_intercalate, List.map_cons]
    rfl
  · exact String.toList_ofList
  · rw [← String.toList_inj, String.toList_ofList, weexPart_eq_iff, Length.clear_iff, hwords]
    simp [Text.words]

/-- Of two enclosed parts of a value the one is written anew, and the other is kept. -/
theorem normalize_enclosed_parts :
    let style := "a:b; content : 'x  red 2cpx' url(k.png);c:d"
    (∃ before after : String,
      normalize .weex none style = before ++ "'x #ff0000 2px'" ++ after ∧
      skeleton before.toList = [';'] ∧ skeleton after.toList = ['(', ')', ';']) ∧
    ∃ before after : String,
      normalize .weex none style = before ++ "(k.png)" ++ after ∧
      skeleton before.toList = [';', '\'', '\''] ∧ skeleton after.toList = [';'] := by
  intro style
  have hliteral : Enclosed "'x  red 2cpx'".toList := .literal (by decide) "x  red 2cpx".toList
  have hargument : Enclosed "(k.png)".toList := .argument "k.png".toList
  obtain ⟨before, written, after, hstyle, hbefore, hafter, hwritten, -⟩ :=
    @normalize_enclosed none style ["a:b"] ["c:d"] "content " " " "'x  red 2cpx'" " url(k.png)"
      hliteral (by decide) (by decide +kernel)
  obtain ⟨before', written', after', hstyle', hbefore', hafter', -, hkept⟩ :=
    @normalize_enclosed none style ["a:b"] ["c:d"] "content " " 'x  red 2cpx' url" "(k.png)" ""
      hargument (by decide) (by decide +kernel)
  have hnew : written = "'x #ff0000 2px'" :=
    String.toList_inj.mp (hwritten.trans (by decide +kernel))
  have hclear : ∀ i, ¬ Length.UnitAt "(k.png)".toList i :=
    Length.clear_iff.mp (Length.clear_of_not_mem (by decide))
  have hsame : written' = "(k.png)" :=
    hkept.mpr (.inr ⟨hclear, .inr ⟨by decide +kernel, by decide +kernel⟩⟩)
  rw [hnew] at hstyle
  rw [hsame] at hstyle'
  exact ⟨⟨before, after, hstyle, hbefore.trans (by decide +kernel), hafter.trans (by decide +kernel)⟩,
    before', after', hstyle', hbefore'.trans (by decide +kernel), hafter'.trans (by decide +kernel)⟩

/-- A colour between quotes is written as one, and blanks and lengths between parentheses are
written, too, so neither the literal nor the argument is found in what has been written. -/
theorem normalize_enclosed_colour :
    declarations "content:'in red ink'" = ["content:'in red ink'"] ∧
    Nesting.scan quoting .outside "content:'in red ink'".toList = .outside ∧
    Enclosed "'in red ink'".toList ∧
    normalize .weex none "content:'in red ink'" = "content: 'in #ff0000 ink'" ∧
    ¬ "'in red ink'".toList <:+: (normalize .weex none "content:'in red ink'").toList ∧
    Enclosed "(a  2cpx)".toList ∧
    normalize .weex none "background:url(a  2cpx)" = "background: url(a 2px)" ∧
    ¬ "(a  2cpx)".toList <:+: (normalize .weex none "background:url(a  2cpx)").toList :=
  ⟨by decide +kernel, by decide +kernel, .literal (by decide) "in red ink".toList, by decide +kernel,
    by decide +kernel, .argument "a  2cpx".toList, by decide +kernel, by decide +kernel⟩

end Style

end TemplateCompiler
