/-
Blanks at the ends of a text, and the words between blanks.

Neither trimming nor taking words looks at anything but blanks, so the other characters
stand afterwards as they stood before: a trimmed text has them, and so have its words in
their order.

Words come from one equation: a blank cuts a text, and its words are those of the two parts.
A text is therefore either without a blank, and then one word if it is not empty, or it is
cut at its first blank, and what is said of all words is proved in these two cases.
-/
import Mathlib.Data.List.DropRight
import TemplateCompiler.Text.Blank

namespace TemplateCompiler

/-- What can be seen of every code point in the ranges holds of every blank. -/
theorem forall_isBlank {p : Char → Prop}
    (hall : ∀ range ∈ blankRanges, ∀ n ∈ List.range' range.1 (range.2 + 1 - range.1),
      p (Char.ofNat n)) {c : Char} (h : isBlank c = true) : p c := by
  obtain ⟨range, hrange, hc⟩ := List.any_eq_true.mp h
  rw [Bool.and_eq_true, decide_eq_true_eq, decide_eq_true_eq] at hc
  rw [← Char.ofNat_toNat c]
  exact hall range hrange c.toNat (List.mem_range'_1.mpr (by omega))

namespace Text

variable {cs word : List Char} {c d : Char}

/-! ### Taking off the end -/

section

variable {p : Char → Bool}

theorem dropEndWhile_concat (p : Char → Bool) (cs : List Char) (c : Char) :
    dropEndWhile p (cs ++ [c]) = if p c = true then dropEndWhile p cs else cs ++ [c] :=
  List.rdropWhile_concat p cs c

/-- Nothing is taken off beyond a character that stays. -/
theorem dropEndWhile_append_cons (front : List Char) (hc : p c = false) (cs : List Char) :
    dropEndWhile p (front ++ c :: cs) = front ++ c :: dropEndWhile p cs := by
  induction cs using List.reverseRecOn with
  | nil => exact dropEndWhile_append_of_neg front hc
  | append_singleton cs d ih =>
      rw [← List.cons_append, ← List.append_assoc, dropEndWhile_concat, dropEndWhile_concat, ih]
      split
      · rfl
      · rw [List.append_assoc, List.cons_append]

end

/-! ### Trimming -/

/-- No blank at either end. -/
structure Trimmed (cs : List Char) : Prop where
  head : ∀ c, cs.head? = some c → isBlank c = false
  last : ∀ c, cs.getLast? = some c → isBlank c = false

theorem trimmed_nil : Trimmed [] := ⟨nofun, nofun⟩

theorem Trimmed.trimStartChars_eq (h : Trimmed cs) : trimStartChars cs = cs := by
  cases cs with
  | nil => rfl
  | cons c cs => exact List.dropWhile_cons_of_neg (by simp [h.head c rfl])

theorem Trimmed.trimEndChars_eq (h : Trimmed cs) : trimEndChars cs = cs := by
  cases cs using List.reverseRecOn with
  | nil => rfl
  | append_singleton cs c => exact dropEndWhile_append_of_neg cs (h.last c (by simp))

/-- Where no blank stands at either end, there is nothing to be trimmed. -/
theorem Trimmed.trimChars_eq (h : Trimmed cs) : trimChars cs = cs := by
  unfold trimChars
  rw [h.trimStartChars_eq, h.trimEndChars_eq]

theorem trimmed_trimChars (cs : List Char) : Trimmed (trimChars cs) where
  head c hc := by
    obtain ⟨rest, hrest⟩ : ∃ rest, trimChars cs = c :: rest := by
      cases htrim : trimChars cs with
      | nil =>
          rw [htrim] at hc
          cases hc
      | cons c' rest =>
          rw [htrim, List.head?_cons, Option.some.injEq] at hc
          exact ⟨rest, by rw [hc]⟩
    have hprefix : c :: rest <+: trimStartChars cs := hrest ▸ List.rdropWhile_prefix _ _
    obtain ⟨back, hback⟩ := hprefix
    have hhead := List.head?_dropWhile_not isBlank cs
    rw [show cs.dropWhile isBlank = _ from hback.symm] at hhead
    simpa using hhead
  last c hc := by
    have hne : trimChars cs ≠ [] := by
      rintro hnil
      rw [hnil] at hc
      cases hc
    have hlast := List.rdropWhile_last_not isBlank (trimStartChars cs) hne
    rw [List.getLast?_eq_getLast_of_ne_nil hne, Option.some.injEq] at hc
    exact hc ▸ (Bool.not_eq_true _).mp hlast

/-- A text that begins and ends with other characters than blanks has nothing to be trimmed. -/
theorem trimChars_eq_self (hc : isBlank c = false) (hd : isBlank d = false) (cs : List Char) :
    trimChars (c :: cs ++ [d]) = c :: cs ++ [d] := by
  refine Trimmed.trimChars_eq ⟨fun c' hc' => ?_, fun d' hd' => ?_⟩
  · rw [List.cons_append, List.head?_cons, Option.some.injEq] at hc'
    exact hc' ▸ hc
  · rw [List.getLast?_concat, Option.some.injEq] at hd'
    exact hd' ▸ hd

/-- Blanks around a trimmed text are taken off, and no more. -/
theorem Trimmed.trimChars_append {front back : List Char} (h : Trimmed cs) (hne : cs ≠ [])
    (hfront : ∀ c ∈ front, isBlank c = true) (hback : ∀ c ∈ back, isBlank c = true) :
    trimChars (front ++ cs ++ back) = cs := by
  have hstart : trimStartChars (front ++ cs ++ back) = cs ++ back := by
    obtain ⟨c, rest, rfl⟩ := List.exists_cons_of_ne_nil hne
    unfold trimStartChars
    rw [List.append_assoc, List.dropWhile_append_of_pos hfront]
    exact List.dropWhile_cons_of_neg (by simp [h.head c rfl])
  have hend : trimEndChars (cs ++ back) = trimEndChars cs := by
    unfold trimEndChars dropEndWhile
    rw [List.reverse_append,
      List.dropWhile_append_of_pos fun c hc => hback c (List.mem_reverse.mp hc)]
  rw [trimChars, hstart, hend, h.trimEndChars_eq]

/-- A text that trimming leaves as it is. -/
theorem trimmed_of_trim_eq {s : String} (h : trim s = s) : Trimmed s.toList := by
  have hchars : trimChars s.toList = s.toList :=
    String.toList_ofList.symm.trans (congrArg String.toList h)
  exact hchars ▸ trimmed_trimChars s.toList

/-- Of what stands before a character that stays nothing is taken off at the end. -/
theorem Trimmed.trimChars_append_cons {front : List Char} (h : Trimmed front)
    (hc : isBlank c = false) (back : List Char) :
    trimChars (front ++ c :: back) = front ++ c :: trimEndChars back := by
  have hstart : trimStartChars (front ++ c :: back) = front ++ c :: back := by
    cases front with
    | nil => exact List.dropWhile_cons_of_neg (by simp [hc])
    | cons d front => exact List.dropWhile_cons_of_neg (by simp [h.head d rfl])
  unfold trimChars
  rw [hstart]
  exact dropEndWhile_append_cons front hc back

/-- A blank before a trimmed text is taken off, from whichever end one begins. -/
theorem Trimmed.trimChars_trimEndChars (h : Trimmed cs) (hc : isBlank c = true) :
    trimChars (trimEndChars (c :: cs)) = cs := by
  cases cs using List.reverseRecOn with
  | nil =>
      have hnil : trimEndChars [c] = [] := (dropEndWhile_concat isBlank [] c).trans (if_pos hc)
      rw [hnil]
      rfl
  | append_singleton cs d =>
      have hend : trimEndChars (c :: (cs ++ [d])) = c :: (cs ++ [d]) :=
        dropEndWhile_append_of_neg (c :: cs) (h.last d (by simp))
      have hstart : trimStartChars (c :: (cs ++ [d])) = trimStartChars (cs ++ [d]) :=
        List.dropWhile_cons_of_pos hc
      rw [hend, trimChars, hstart]
      exact h.trimChars_eq

/-- Between two texts that begin and end with other characters than blanks nothing is trimmed. -/
theorem trim_append_append {front back : String} (hfront : front.toList.head? = some c)
    (hback : back.toList.getLast? = some d) (hc : isBlank c = false) (hd : isBlank d = false)
    (s : String) : trim (front ++ s ++ back) = front ++ s ++ back := by
  have hne : front.toList ≠ [] := fun hnil => by
    rw [hnil] at hfront
    cases hfront
  have hne' : back.toList ≠ [] := fun hnil => by
    rw [hnil] at hback
    cases hback
  have htrimmed : Trimmed (front ++ s ++ back).toList := by
    rw [String.toList_append, String.toList_append]
    refine ⟨fun c' hc' => ?_, fun d' hd' => ?_⟩
    · rw [List.append_assoc, List.head?_append_of_ne_nil _ hne, hfront, Option.some.injEq] at hc'
      exact hc' ▸ hc
    · rw [List.getLast?_append_of_ne_nil _ hne', hback, Option.some.injEq] at hd'
      exact hd' ▸ hd
  unfold trim
  rw [htrimmed.trimChars_eq, String.ofList_toList]

theorem isBlank_head_trimChars {rest : List Char} (h : trimChars cs = c :: rest) :
    isBlank c = false :=
  (trimmed_trimChars cs).head c (by rw [h, List.head?_cons])

theorem isBlankText_eq_false {s : String} (h : trim s ≠ "") : isBlankText s = false := by
  rw [← Bool.not_eq_true]
  intro hblank
  have hstart : trimStartChars s.toList = [] :=
    List.dropWhile_eq_nil_iff.mpr (List.all_eq_true.mp hblank)
  refine h ?_
  unfold trim trimChars
  rw [hstart]
  rfl

/-- Nothing but blanks is taken off. -/
theorem exists_trimChars (cs : List Char) :
    ∃ front back, cs = front ++ trimChars cs ++ back ∧ (∀ c ∈ front, isBlank c = true) ∧
      ∀ c ∈ back, isBlank c = true := by
  refine ⟨cs.takeWhile isBlank, (trimStartChars cs).rtakeWhile isBlank, ?_,
    fun c hc => List.mem_takeWhile_imp hc, fun c hc => List.mem_rtakeWhile_imp hc⟩
  have hend : trimChars cs ++ (trimStartChars cs).rtakeWhile isBlank = trimStartChars cs :=
    List.rdropWhile_append_rtakeWhile
  rw [List.append_assoc, hend]
  exact List.takeWhile_append_dropWhile.symm

theorem filter_dropWhile_isBlank (cs : List Char) :
    (cs.dropWhile isBlank).filter (fun c => !isBlank c) = cs.filter fun c => !isBlank c := by
  have hfront : (cs.takeWhile isBlank).filter (fun c => !isBlank c) = [] :=
    List.filter_eq_nil_iff.mpr fun c hc => by simp [List.mem_takeWhile_imp hc]
  conv_rhs => rw [← List.takeWhile_append_dropWhile (p := isBlank) (l := cs)]
  rw [List.filter_append, hfront, List.nil_append]

/-- Trimming takes nothing but blanks away. -/
theorem filter_trimChars (cs : List Char) :
    (trimChars cs).filter (fun c => !isBlank c) = cs.filter fun c => !isBlank c := by
  unfold trimChars trimEndChars dropEndWhile trimStartChars
  rw [List.filter_reverse, filter_dropWhile_isBlank, List.filter_reverse, List.reverse_reverse,
    filter_dropWhile_isBlank]

theorem blank_or_mem_trimChars (h : c ∈ cs) : isBlank c = true ∨ c ∈ trimChars cs := by
  cases hc : isBlank c with
  | true => exact .inl rfl
  | false =>
      have hmem : c ∈ cs.filter fun c => !isBlank c := List.mem_filter.mpr ⟨h, by rw [hc]; rfl⟩
      rw [← filter_trimChars] at hmem
      exact .inr (List.mem_filter.mp hmem).1

/-! ### Joined texts -/

/-- What stands in joined texts stands in the separator or in one of them. -/
theorem mem_of_mem_intercalate {α : Type} {x : α} {separator : List α} {pieces : List (List α)}
    (h : x ∈ separator.intercalate pieces) : x ∈ separator ∨ ∃ piece ∈ pieces, x ∈ piece := by
  induction pieces with
  | nil => cases h
  | cons piece pieces ih =>
      cases pieces with
      | nil => exact .inr ⟨piece, List.mem_singleton_self piece, by simpa using h⟩
      | cons next pieces =>
          rw [List.intercalate_cons_cons, List.mem_append, List.mem_append] at h
          rcases h with (h | h) | h
          · exact .inr ⟨piece, List.mem_cons_self, h⟩
          · exact .inl h
          · rcases ih h with hx | ⟨piece', hpiece', hx⟩
            · exact .inl hx
            · exact .inr ⟨piece', List.mem_cons_of_mem piece hpiece', hx⟩

theorem not_mem_intercalate {separator : String} {texts : List String}
    (hseparator : c ∉ separator.toList) (h : ∀ text ∈ texts, c ∉ text.toList) :
    c ∉ (separator.intercalate texts).toList := by
  rw [String.toList_intercalate]
  intro hc
  rcases mem_of_mem_intercalate hc with hc | ⟨piece, hpiece, hc⟩
  · exact hseparator hc
  · obtain ⟨text, htext, rfl⟩ := List.mem_map.mp hpiece
    exact h text htext hc

/-! ### Words -/

/-- A stretch without blanks belongs to the first word. -/
theorem splitOnP_append {p : Char → Bool} {front : List Char} (h : ∀ c ∈ front, p c = false)
    (rest : List Char) :
    (front ++ rest).splitOnP p = (rest.splitOnP p).modifyHead (front ++ ·) := by
  induction front with
  | nil =>
      show _ = List.modifyHead id _
      rw [List.modifyHead_id]
      rfl
  | cons c front ih =>
      have hc := h c (by simp)
      rw [List.cons_append, List.splitOnP_cons_eq_if_modifyHead, if_neg (by simp [hc]),
        ih fun d hd => h d (by simp [hd]), List.modifyHead_modifyHead]
      rfl

/-- A blank cuts a text. -/
theorem wordsChars_append_blank (front : List Char) (hc : isBlank c = true) (back : List Char) :
    wordsChars (front ++ c :: back) = wordsChars front ++ wordsChars back := by
  unfold wordsChars
  rw [List.splitOnP_append_cons _ _ hc, List.filter_append]

/-- What holds no blank is one word, if it is not empty. -/
theorem wordsChars_of_forall (h : ∀ c ∈ cs, isBlank c = false) :
    wordsChars cs = if cs = [] then [] else [cs] := by
  unfold wordsChars
  rw [List.splitOnP_eq_singleton h]
  cases cs <;> rfl

/-- A text holds no blank, or it is cut at the first one. -/
theorem wordsInduction {motive : List Char → Prop}
    (clear : ∀ cs : List Char, (∀ c ∈ cs, isBlank c = false) → motive cs)
    (cut : ∀ (front : List Char) (c : Char) (back : List Char), (∀ c ∈ front, isBlank c = false) →
      isBlank c = true → motive back → motive (front ++ c :: back))
    (cs : List Char) : motive cs := by
  have hfront : ∀ c ∈ cs.takeWhile (!isBlank ·), isBlank c = false := fun c hc => by
    simpa using List.mem_takeWhile_imp hc
  cases hback : cs.dropWhile (!isBlank ·) with
  | nil =>
      refine clear cs fun c hc => ?_
      simpa using List.dropWhile_eq_nil_iff.mp hback c hc
  | cons c back =>
      have hcs : cs.takeWhile (!isBlank ·) ++ c :: back = cs := by
        rw [← hback, List.takeWhile_append_dropWhile]
      have hc : isBlank c = true := by
        have hhead := List.head?_dropWhile_not (!isBlank ·) cs
        rw [hback] at hhead
        simpa using hhead
      have hlength : back.length < cs.length := by
        rw [← hcs, List.length_append, List.length_cons]
        omega
      rw [← hcs]
      exact cut _ c back hfront hc (wordsInduction clear cut back)
termination_by cs.length

/-- The words, one after the other, are what is not blank. -/
theorem flatten_wordsChars (cs : List Char) :
    (wordsChars cs).flatten = cs.filter fun c => !isBlank c := by
  have hclear : ∀ {cs : List Char}, (∀ c ∈ cs, isBlank c = false) →
      (wordsChars cs).flatten = cs.filter fun c => !isBlank c := by
    intro cs h
    rw [wordsChars_of_forall h, List.filter_eq_self.mpr fun c hc => by rw [h c hc]; rfl]
    split
    · rename_i hnil
      exact hnil.symm
    · exact List.flatten_singleton
  induction cs using wordsInduction with
  | clear cs h => exact hclear h
  | cut front c back hfront hc ih =>
      rw [wordsChars_append_blank front hc, List.flatten_append, hclear hfront, ih,
        List.filter_append, List.filter_cons_of_neg (by simp [hc])]

theorem mem_of_mem_wordsChars (hword : word ∈ wordsChars cs) (hc : c ∈ word) :
    c ∈ cs ∧ isBlank c = false := by
  have hmem : c ∈ (wordsChars cs).flatten := List.mem_flatten.mpr ⟨word, hword, hc⟩
  rw [flatten_wordsChars, List.mem_filter] at hmem
  exact ⟨hmem.1, by simpa using hmem.2⟩

/-- A word stands in the text, and a blank follows it or nothing. -/
theorem exists_of_mem_wordsChars (h : word ∈ wordsChars cs) :
    ∃ front back, cs = front ++ (word ++ back) ∧ ∀ c, back.head? = some c → isBlank c = true := by
  have hclear : ∀ {cs : List Char}, (∀ c ∈ cs, isBlank c = false) → word ∈ wordsChars cs →
      word = cs := by
    intro cs hcs h
    rw [wordsChars_of_forall hcs] at h
    split at h
    · cases h
    · exact List.mem_singleton.mp h
  induction cs using wordsInduction with
  | clear cs hcs => exact ⟨[], [], by simp [hclear hcs h], nofun⟩
  | cut front c back hfront hc ih =>
      rw [wordsChars_append_blank front hc, List.mem_append] at h
      rcases h with h | h
      · refine ⟨[], c :: back, by rw [hclear hfront h]; rfl, fun d hd => ?_⟩
        exact Option.some.inj hd ▸ hc
      · obtain ⟨front', back', rfl, hback⟩ := ih h
        exact ⟨front ++ c :: front', back', by simp, hback⟩

/-- What words are: not empty and without blanks. -/
def IsWord (word : List Char) : Prop := word ≠ [] ∧ ∀ c ∈ word, isBlank c = false

theorem isWord_of_mem_wordsChars (h : word ∈ wordsChars cs) : IsWord word :=
  ⟨ne_nil_of_mem_wordsChars h, fun _ hc => (mem_of_mem_wordsChars h hc).2⟩

theorem IsWord.wordsChars_eq (h : IsWord word) : wordsChars word = [word] := by
  rw [wordsChars_of_forall h.2, if_neg h.1]

/-- Words with single blanks between them are the words of the whole. -/
theorem wordsChars_intercalate {words : List (List Char)} (h : ∀ word ∈ words, IsWord word) :
    wordsChars ([' '].intercalate words) = words := by
  have hblank : isBlank ' ' = true := by decide
  induction words with
  | nil => exact wordsChars_nil
  | cons word words ih =>
      have hword := (h word List.mem_cons_self).wordsChars_eq
      cases words with
      | nil => rwa [List.intercalate_singleton]
      | cons next words =>
          rw [List.intercalate_cons_cons, List.append_assoc, List.singleton_append,
            wordsChars_append_blank word hblank, hword, ih fun w hw => h w (List.mem_cons_of_mem _ hw)]
          rfl

/-- Such a text begins and ends with a word. -/
theorem trimmed_intercalate {words : List (List Char)} (h : ∀ word ∈ words, IsWord word) :
    Trimmed ([' '].intercalate words) := by
  induction words with
  | nil => exact trimmed_nil
  | cons word words ih =>
      obtain ⟨hne, hword⟩ := h word List.mem_cons_self
      have hhead : ∀ {rest : List Char} {c : Char}, (word ++ rest).head? = some c →
          isBlank c = false := by
        intro rest c hc
        obtain ⟨w, ws, rfl⟩ := List.exists_cons_of_ne_nil hne
        rw [List.cons_append, List.head?_cons, Option.some.injEq] at hc
        exact hword c (hc ▸ List.mem_cons_self)
      cases words with
      | nil =>
          rw [List.intercalate_singleton]
          refine ⟨fun c hc => hword c (List.mem_of_head? hc), fun c hc => ?_⟩
          exact hword c (List.mem_of_getLast? hc)
      | cons next words =>
          have hrest := ih fun w hw => h w (List.mem_cons_of_mem _ hw)
          have hne' : [' '].intercalate (next :: words) ≠ [] := by
            obtain ⟨w, ws, hnext⟩ := List.exists_cons_of_ne_nil (h next (by simp)).1
            rw [hnext]
            cases words with
            | nil => simp
            | cons => simp [List.intercalate_cons_cons]
          rw [List.intercalate_cons_cons, List.append_assoc]
          refine ⟨fun c hc => hhead hc, fun c hc => hrest.last c ?_⟩
          rwa [List.getLast?_append_of_ne_nil _ (by simp), List.getLast?_append_of_ne_nil _ hne']
            at hc

/-! ### Words of strings -/

/-- Two texts with blanks between them have the words of both. -/
theorem words_append_blanks (s t : String) {gap : String} (hne : gap.toList ≠ [])
    (hgap : isBlankText gap = true) : words (s ++ gap ++ t) = words s ++ words t := by
  have hskip : ∀ blanks : List Char, (∀ c ∈ blanks, isBlank c = true) →
      wordsChars (blanks ++ t.toList) = wordsChars t.toList := by
    intro blanks hblanks
    induction blanks with
    | nil => rfl
    | cons c blanks ih =>
        rw [List.cons_append, ← List.nil_append (c :: _), wordsChars_append_blank [] (hblanks c (by simp)),
          wordsChars_nil, ih fun d hd => hblanks d (List.mem_cons_of_mem c hd)]
        rfl
  obtain ⟨c, blanks, hcs⟩ := List.exists_cons_of_ne_nil hne
  have hblanks : ∀ d ∈ c :: blanks, isBlank d = true := hcs ▸ List.all_eq_true.mp hgap
  unfold words
  rw [String.toList_append, String.toList_append, hcs, List.append_assoc, List.cons_append,
    wordsChars_append_blank s.toList (hblanks c List.mem_cons_self),
    hskip blanks fun d hd => hblanks d (List.mem_cons_of_mem c hd), List.map_append]

theorem words_append_blank (s t : String) : words (s ++ " " ++ t) = words s ++ words t :=
  words_append_blanks s t (by decide) (by decide)

end Text

end TemplateCompiler
