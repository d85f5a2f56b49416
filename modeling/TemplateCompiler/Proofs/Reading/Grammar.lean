/-
What the tokens of a text are, said by their form.

The reader finds tokens by stepping through the text.  Here a token is described by what is
written: an end tag is `</`, blanks, a name, blanks and perhaps a `>`; a comment runs up to
the first `-->`; text is made of plain characters and whole interpolations.  Where a form
could be shorter or longer, it is as long as it can be, and that is a condition on what
follows it.  The two descriptions agree, for malformed start tags too, so what stands at a
place of a text depends on nothing but the characters from there on.

Only the attributes of a start tag keep the description that reading them gives.
-/
import TemplateCompiler.Proofs.Reading.Cursor
import TemplateCompiler.Proofs.Reading.Text

namespace TemplateCompiler

/-! ### Stretches of characters of one kind -/

/-- The characters `cs` satisfy `p`, and the text `rest` after them does not go on with one that
does. -/
structure Stretch (p : Char → Bool) (cs rest : List Char) : Prop where
  all : ∀ c ∈ cs, p c = true
  ends : ∀ c, rest.head? = some c → p c = false

namespace Stretch

variable {p : Char → Bool} {cs rest : List Char}

theorem takeWhile_append (h : Stretch p cs rest) : (cs ++ rest).takeWhile p = cs := by
  rw [List.takeWhile_append_of_pos h.all]
  cases rest with
  | nil => simp
  | cons c rest => simp [h.ends c rfl]

theorem dropWhile_append (h : Stretch p cs rest) : (cs ++ rest).dropWhile p = rest := by
  rw [List.dropWhile_append_of_pos h.all]
  cases rest with
  | nil => simp
  | cons c rest => simp [h.ends c rfl]

/-- The stretch at the front of a text. -/
theorem of_takeWhile (p : Char → Bool) (cs : List Char) :
    Stretch p (cs.takeWhile p) (cs.dropWhile p) where
  all _ hc := List.mem_takeWhile_imp hc
  ends c hc := by
    have hnot := List.head?_dropWhile_not p cs
    rw [hc] at hnot
    simpa using hnot

/-- Every text begins with a stretch, which may be empty. -/
theorem exists_append (p : Char → Bool) (text : List Char) :
    ∃ cs rest, text = cs ++ rest ∧ Stretch p cs rest :=
  ⟨_, _, List.takeWhile_append_dropWhile.symm, .of_takeWhile p text⟩

end Stretch

namespace Cursor

variable {k : Cursor} {p : Char → Bool} {cs rest : List Char}

/-- Taking two pieces one after the other is taking them at once. -/
theorem advance_advance (k : Cursor) (cs ds rest rest' : List Char) :
    (k.advance cs rest).advance ds rest' = k.advance (cs ++ ds) rest' := by
  unfold advance
  rw [byteLength_append, Nat.add_assoc]

theorem takeWhile_of_stretch (hk : k.rest = cs ++ rest) (h : Stretch p cs rest) :
    k.takeWhile p = (cs, k.advance cs rest) := by
  unfold takeWhile
  rw [hk, h.takeWhile_append, h.dropWhile_append]

theorem skipBlanks_of_stretch (hk : k.rest = cs ++ rest) (h : Stretch isBlank cs rest) :
    k.skipBlanks = k.advance cs rest := by
  unfold skipBlanks
  rw [takeWhile_of_stretch hk h]

end Cursor

/-! ### The first occurrence of a mark -/

namespace Text

variable {mark cs before after : List Char}

/-- The mark stands nowhere in the text. -/
def Lacks (mark cs : List Char) : Prop := ∀ before after, cs ≠ before ++ mark ++ after

/-- Between `before` and `after` stands the first `mark` of the whole. -/
def FirstAt (mark before after : List Char) : Prop :=
  ∀ before' after', before ++ mark ++ after = before' ++ mark ++ after' →
    before.length ≤ before'.length

theorem cutChars_eq_none_iff (hmark : mark ≠ []) : cutChars mark cs = none ↔ Lacks mark cs := by
  induction cs with
  | nil =>
      have hempty : mark.isEmpty = false := by simpa using hmark
      refine iff_of_true (by simp [cutChars, hempty]) fun before after heq => ?_
      simp [hmark] at heq
  | cons c cs ih =>
      simp only [cutChars]
      cases hfront : afterChars? mark (c :: cs) with
      | some after =>
          refine iff_of_false (by simp) fun hlacks => ?_
          exact hlacks [] after (eq_append_of_afterChars? hfront)
      | none =>
          dsimp only
          rw [Option.map_eq_none_iff, ih]
          constructor
          · intro hlacks before after heq
            cases before with
            | nil =>
                rw [heq, List.nil_append, afterChars?_append] at hfront
                cases hfront
            | cons b before =>
                rw [List.cons_append, List.cons_append, List.cons.injEq] at heq
                exact hlacks before after heq.2
          · intro hlacks before after heq
            exact hlacks (c :: before) after (by rw [heq]; rfl)

/-- What is found is the first occurrence. -/
theorem firstAt_of_cutChars (h : cutChars mark cs = some (before, after)) :
    FirstAt mark before after := by
  intro before' after' heq
  rw [← eq_of_cutChars h] at heq
  induction cs generalizing before before' with
  | nil =>
      simp only [cutChars] at h
      split at h
      · cases h
        exact Nat.zero_le _
      · cases h
  | cons c cs ih =>
      simp only [cutChars] at h
      split at h
      · cases h
        exact Nat.zero_le _
      · rename_i hfront
        obtain ⟨⟨before₁, after₁⟩, hcut, hparts⟩ := Option.map_eq_some_iff.mp h
        cases hparts
        cases before' with
        | nil =>
            rw [heq, List.nil_append, afterChars?_append] at hfront
            cases hfront
        | cons b before' =>
            rw [List.cons_append, List.cons_append, List.cons.injEq] at heq
            exact Nat.succ_le_succ (ih hcut before' heq.2)

/-- The first occurrence is found. -/
theorem cutChars_of_firstAt (hmark : mark ≠ []) (h : FirstAt mark before after) :
    cutChars mark (before ++ mark ++ after) = some (before, after) := by
  cases hcut : cutChars mark (before ++ mark ++ after) with
  | none => exact absurd rfl ((cutChars_eq_none_iff hmark).mp hcut before after)
  | some parts =>
      obtain ⟨before', after'⟩ := parts
      have heq := eq_of_cutChars hcut
      -- Both occurrences are first, so neither stands before the other.
      have hle := h before' after' heq
      have hge := firstAt_of_cutChars hcut before after heq.symm
      have hbefore : before = before' := by
        rw [List.append_assoc, List.append_assoc] at heq
        exact (List.append_inj heq (Nat.le_antisymm hle hge)).1
      subst hbefore
      rw [List.append_cancel_left_eq] at heq
      rw [heq]

end Text

/-! ### Text -/

namespace Token

/-- The marks of an interpolation. -/
def openMark : List Char := ['{', '{']

def closeMark : List Char := ['}', '}']

/-- Text goes on with `content` and stops before `rest`: it is made of characters other than `<`
that begin no interpolation and of interpolations up to the first mark that closes them.  One that
is never closed takes all of the rest. -/
inductive TextRun : List Char → List Char → Prop
  | stop {rest : List Char} (h : rest = [] ∨ ∃ rest', rest = '<' :: rest') : TextRun [] rest
  | plain {c : Char} {content rest : List Char} (htag : c ≠ '<')
      (hopen : ¬ openMark <+: c :: (content ++ rest)) (h : TextRun content rest) :
      TextRun (c :: content) rest
  | interpolation {inner content rest : List Char}
      (hclose : Text.FirstAt closeMark inner (content ++ rest)) (h : TextRun content rest) :
      TextRun (openMark ++ inner ++ closeMark ++ content) rest
  | endless {inner : List Char} (hclose : Text.Lacks closeMark inner) :
      TextRun (openMark ++ inner) []

/-- A mark of two equal characters is looked for one character at a time. -/
theorem afterChars?_twice (m c : Char) (rest : List Char) :
    Text.afterChars? [m, m] (c :: rest)
      = if (c == m && rest.head? == some m) = true then some (rest.drop 1) else none := by
  by_cases hmark : (c == m && rest.head? == some m) = true
  · have hc : c = m := beq_iff_eq.mp (Bool.and_eq_true_iff.mp hmark).1
    rw [if_pos hmark, hc]
    conv => lhs; rw [eq_cons_of_head? hmark]
    exact Text.afterChars?_append [m, m] (rest.drop 1)
  · rw [if_neg hmark]
    cases h : Text.afterChars? [m, m] (c :: rest) with
    | none => rfl
    | some after =>
        have heq := Text.eq_append_of_afterChars? h
        rw [List.cons_append, List.cons.injEq] at heq
        obtain ⟨rfl, rfl⟩ := heq
        simp at hmark

theorem isPrefix_twice (m c : Char) (rest : List Char) :
    [m, m] <+: c :: rest ↔ (c == m && rest.head? == some m) = true := by
  constructor
  · rintro ⟨after, heq⟩
    rw [List.cons_append, List.cons.injEq] at heq
    obtain ⟨rfl, rfl⟩ := heq
    simp
  · intro hmark
    refine ⟨rest.drop 1, ?_⟩
    rw [beq_iff_eq.mp (Bool.and_eq_true_iff.mp hmark).1]
    exact congrArg (m :: ·) (eq_cons_of_head? hmark).symm

/-- Inside an interpolation, everything up to the mark that closes it is text. -/
theorem readText_inside (cs : List Char) :
    readText true cs = match Text.cutChars closeMark cs with
      | some (inner, after) =>
        (inner ++ closeMark ++ (readText false after).1, (readText false after).2)
      | none => (cs, []) := by
  induction cs with
  | nil =>
      rw [readText]
      rfl
  | cons c rest ih =>
      rw [readText, if_pos rfl, Text.cutChars]
      rw [show Text.afterChars? closeMark (c :: rest) = _ from afterChars?_twice '}' c rest]
      by_cases hmark : (c == '}' && rest.head? == some '}') = true
      · have hc : c = '}' := beq_iff_eq.mp (Bool.and_eq_true_iff.mp hmark).1
        rw [if_pos hmark, if_pos hmark, hc]
        rfl
      · rw [if_neg hmark, if_neg hmark, ih]
        cases Text.cutChars closeMark rest with
        | none => rfl
        | some parts => rfl

theorem readText_openMark (cs : List Char) :
    readText false (openMark ++ cs) = (openMark ++ (readText true cs).1, (readText true cs).2) := by
  show readText false ('{' :: '{' :: cs) = _
  rw [readText]
  simp [openMark]

/-- Text is read as long as it goes on. -/
theorem TextRun.readText_append {content rest : List Char} (h : TextRun content rest) :
    readText false (content ++ rest) = (content, rest) := by
  induction h with
  | stop h =>
      rcases h with rfl | ⟨rest', rfl⟩
      · rw [List.append_nil, readText]
      · rw [List.nil_append, readText]
        simp
  | @plain c content rest htag hopen h ih =>
      rw [openMark, isPrefix_twice] at hopen
      rw [List.cons_append, readText, if_neg Bool.false_ne_true, if_neg hopen,
        if_neg (by simpa using htag), ih]
  | @interpolation inner content rest hclose h ih =>
      have hcut := Text.cutChars_of_firstAt (by simp [closeMark]) hclose
      have hinside := readText_inside (inner ++ closeMark ++ (content ++ rest))
      simp only [hcut, ih] at hinside
      rw [show openMark ++ inner ++ closeMark ++ content ++ rest
        = openMark ++ (inner ++ closeMark ++ (content ++ rest)) by simp only [List.append_assoc],
        readText_openMark, hinside]
      simp only [List.append_assoc]
  | @endless inner hclose =>
      have hcut := (Text.cutChars_eq_none_iff (by simp [closeMark])).mpr hclose
      have hinside := readText_inside inner
      rw [hcut] at hinside
      rw [List.append_nil]
      rw [readText_openMark, hinside]

/-- What is read as text goes on as far as it is read. -/
theorem textRun_readText (cs : List Char) :
    TextRun (readText false cs).1 (readText false cs).2 := by
  match cs with
  | [] =>
      rw [readText]
      exact .stop (.inl rfl)
  | c :: rest =>
      rw [readText, if_neg Bool.false_ne_true]
      by_cases hopen : (c == '{' && rest.head? == some '{') = true
      · have hc : c = '{' := beq_iff_eq.mp (Bool.and_eq_true_iff.mp hopen).1
        rw [if_pos hopen, readText_inside, hc]
        cases hcut : Text.cutChars closeMark (rest.drop 1) with
        | none => exact .endless ((Text.cutChars_eq_none_iff (by simp [closeMark])).mp hcut)
        | some parts =>
            obtain ⟨inner, after⟩ := parts
            have hlength : after.length < (c :: rest).length := by
              have := congrArg List.length (Text.eq_of_cutChars hcut)
              simp only [List.length_drop, List.length_append, List.length_cons] at *
              omega
            have hafter := textRun_readText after
            have hfirst := Text.firstAt_of_cutChars hcut
            rw [(@readText_eq false after _ _ rfl).1] at hfirst
            simpa [openMark] using TextRun.interpolation hfirst hafter
      · rw [if_neg hopen]
        by_cases htag : (c == '<') = true
        · rw [if_pos htag, beq_iff_eq.mp htag]
          exact .stop (.inr ⟨rest, rfl⟩)
        · rw [if_neg htag]
          refine .plain (by simpa using htag) ?_ (textRun_readText rest)
          rw [← (@readText_eq false rest _ _ rfl).1, openMark, isPrefix_twice]
          exact hopen
termination_by cs.length
decreasing_by
  · exact hlength
  · exact Nat.lt_succ_self rest.length

/-! ### Tokens -/

/-- A start tag begins: a `<` that begins no end tag and no comment, and the blanks after it. -/
structure OpensTag (k : Cursor) (blanks rest : List Char) : Prop where
  rest_eq : k.rest = ['<'] ++ (blanks ++ rest)
  not_end : ¬ ['<', '/'] <+: k.rest
  not_comment : ¬ ['<', '!', '-', '-'] <+: k.rest
  blanks : Stretch isBlank blanks rest

/-- A start tag begins and has a name, and `attrs` are its attributes, up to `k'`. -/
structure NamesTag (k : Cursor) (name : List Char) (attrs : List Attribute) (k' : Cursor) :
    Prop where
  name_ne : name ≠ []
  attributes : ∃ blanks after, OpensTag k blanks (name ++ after) ∧ Stretch isTagChar name after ∧
    readAttributes (k.advance (['<'] ++ blanks ++ name) after) = (attrs, k')

/-- What stands at a cursor: a token with the cursor after it, or a start tag that is malformed.  An
end tag and a comment are known by their first characters, every other `<` begins a start tag, and
all else is text. -/
inductive Stands (k : Cursor) : Except ParseError (Token × Cursor) → Prop
  | endTag {blanks name blanks' mark rest : List Char}
      (hk : k.rest = ['<', '/'] ++ (blanks ++ (name ++ (blanks' ++ (mark ++ rest)))))
      (hblanks : Stretch isBlank blanks (name ++ (blanks' ++ (mark ++ rest))))
      (hname : Stretch isTagChar name (blanks' ++ (mark ++ rest)))
      (hblanks' : Stretch isBlank blanks' (mark ++ rest))
      (hmark : mark = ['>'] ∨ mark = [] ∧ ¬ ['>'] <+: rest) :
      Stands k (.ok (.endTag (.ofList name),
        k.advance (['<', '/'] ++ blanks ++ name ++ blanks' ++ mark) rest))
  | comment {content rest : List Char}
      (hk : k.rest = ['<', '!', '-', '-'] ++ (content ++ ['-', '-', '>'] ++ rest))
      (hfirst : Text.FirstAt ['-', '-', '>'] content rest) :
      Stands k (.ok (.comment (.ofList content),
        k.advance (['<', '!', '-', '-'] ++ (content ++ ['-', '-', '>'])) rest))
  | endlessComment {content : List Char} (hk : k.rest = ['<', '!', '-', '-'] ++ content)
      (hlacks : Text.Lacks ['-', '-', '>'] content) :
      Stands k (.ok (.comment (.ofList content),
        k.advance (['<', '!', '-', '-'] ++ content) []))
  | noTagName {blanks rest : List Char} (hopens : OpensTag k blanks rest)
      (hname : Stretch isTagChar [] rest) :
      Stands k (.error (.noTagName rest.head?
        ⟨k.offset, k.offset + byteLength (['<'] ++ blanks)⟩))
  | selfClosing {name rest : List Char} {attrs : List Attribute} {k' : Cursor}
      (htag : NamesTag k name attrs k') (hrest : k'.rest = ['/', '>'] ++ rest) :
      Stands k (.ok (.startTag (.ofList name) (.ofEntries attrs) .selfClosing,
        k'.advance ['/', '>'] rest))
  | startTag {name rest : List Char} {attrs : List Attribute} {k' : Cursor}
      (htag : NamesTag k name attrs k') (hrest : k'.rest = ['>'] ++ rest) :
      Stands k (.ok (.startTag (.ofList name) (.ofEntries attrs)
        (if isVoidTag (.ofList name) then .void else .normal), k'.advance ['>'] rest))
  | unclosedTag {name : List Char} {attrs : List Attribute} {k' : Cursor}
      (htag : NamesTag k name attrs k') (hrest : k'.rest = []) :
      Stands k (.error (.unclosedTag (.ofList name) ⟨k.offset, k'.offset⟩))
  | text {content rest : List Char} (hk : k.rest = content ++ rest) (hne : content ≠ [])
      (htext : TextRun content rest) :
      Stands k (.ok (.text (.ofList content), k.advance content rest))

theorem skip?_eq_none_iff {k : Cursor} {mark : List Char} :
    k.skip? mark = none ↔ ¬ mark <+: k.rest := by
  constructor
  · rintro hskip ⟨rest, hrest⟩
    rw [Cursor.skip?_append mark rest hrest.symm] at hskip
    cases hskip
  · intro h
    refine Cursor.skip?_eq_none mark ?_
    cases hafter : Text.afterChars? mark k.rest with
    | none => rfl
    | some rest => exact absurd ⟨rest, (Text.eq_append_of_afterChars? hafter).symm⟩ h

theorem takePast_of_firstAt {k : Cursor} {mark before after : List Char} (hmark : mark ≠ [])
    (hk : k.rest = before ++ mark ++ after) (h : Text.FirstAt mark before after) :
    k.takePast mark = (before, k.advance (before ++ mark) after) := by
  unfold Cursor.takePast
  rw [hk, Text.cutChars_of_firstAt hmark h]

theorem takePast_of_lacks {k : Cursor} {mark : List Char} (hmark : mark ≠ [])
    (h : Text.Lacks mark k.rest) : k.takePast mark = (k.rest, k.advance k.rest []) := by
  unfold Cursor.takePast
  rw [(Text.cutChars_eq_none_iff hmark).mpr h]

/-- Text that goes on does not begin with a tag. -/
theorem TextRun.not_prefix {content rest : List Char} (h : TextRun content rest)
    (hne : content ≠ []) (mark : List Char) : ¬ '<' :: mark <+: content ++ rest := by
  rintro ⟨after, hafter⟩
  have hhead := head?_ne_of_readText hne h.readText_append
  cases content with
  | nil => exact hne rfl
  | cons c content =>
      rw [List.cons_append, List.cons_append, List.cons.injEq] at hafter
      exact hhead (by rw [← hafter.1]; rfl)

/-- Where a start tag begins, it is read as one. -/
theorem OpensTag.next_eq {k : Cursor} {blanks rest : List Char} (h : OpensTag k blanks rest) :
    next k = readStartTag k.offset (k.advance ['<'] (blanks ++ rest)) := by
  unfold next
  rw [skip?_eq_none_iff.mpr h.not_end, skip?_eq_none_iff.mpr h.not_comment,
    Cursor.skip?_append _ _ h.rest_eq]

/-- The blanks after the `<` are passed over. -/
theorem OpensTag.skipBlanks_eq {k : Cursor} {blanks rest : List Char} (h : OpensTag k blanks rest) :
    (k.advance ['<'] (blanks ++ rest)).skipBlanks = k.advance (['<'] ++ blanks) rest := by
  rw [Cursor.skipBlanks_of_stretch rfl h.blanks, Cursor.advance_advance]

/-- Once the name and the attributes of a start tag are known, its end decides. -/
theorem NamesTag.next_eq {k k' : Cursor} {name : List Char} {attrs : List Attribute}
    (h : NamesTag k name attrs k') :
    next k = match k'.skip? ['/', '>'] with
      | some k₁ => .ok (.startTag (.ofList name) (.ofEntries attrs) .selfClosing, k₁)
      | none =>
        match k'.skip? ['>'] with
        | some k₁ => .ok (.startTag (.ofList name) (.ofEntries attrs)
            (if isVoidTag (.ofList name) then .void else .normal), k₁)
        | none => .error (.unclosedTag (.ofList name) ⟨k.offset, k'.offset⟩) := by
  obtain ⟨blanks, after, hopens, hname, hattrs⟩ := h.attributes
  have htake : (k.advance (['<'] ++ blanks) (name ++ after)).takeWhile isTagChar
      = (name, k.advance (['<'] ++ blanks ++ name) after) := by
    rw [Cursor.takeWhile_of_stretch rfl hname, Cursor.advance_advance]
  have hempty : ¬ name.isEmpty = true := by simpa using h.name_ne
  rw [hopens.next_eq]
  unfold readStartTag
  rw [hopens.skipBlanks_eq, htake]
  dsimp only
  rw [if_neg hempty]
  cases hslash : k'.skip? ['/', '>'] with
  | some k₁ => simp only [hattrs, hslash]
  | none =>
      cases hclose : k'.skip? ['>'] with
      | some k₁ => simp only [hattrs, hslash, hclose]
      | none => simp only [hattrs, hslash, hclose]

/-- The end tag that stands at a cursor is read there. -/
theorem readEndTag_eq {k : Cursor} {blanks name blanks' mark rest : List Char}
    (hk : k.rest = blanks ++ (name ++ (blanks' ++ (mark ++ rest))))
    (hblanks : Stretch isBlank blanks (name ++ (blanks' ++ (mark ++ rest))))
    (hname : Stretch isTagChar name (blanks' ++ (mark ++ rest)))
    (hblanks' : Stretch isBlank blanks' (mark ++ rest))
    (hmark : mark = ['>'] ∨ mark = [] ∧ ¬ ['>'] <+: rest) :
    readEndTag k
      = (.endTag (.ofList name), k.advance (blanks ++ name ++ blanks' ++ mark) rest) := by
  have hskip : (k.advance (blanks ++ name ++ blanks') (mark ++ rest)).skip ['>']
      = k.advance (blanks ++ name ++ blanks' ++ mark) rest := by
    unfold Cursor.skip
    rcases hmark with rfl | ⟨rfl, hmark⟩
    · rw [Cursor.skip?_append ['>'] rest rfl, Option.getD_some, Cursor.advance_advance]
    · rw [skip?_eq_none_iff.mpr hmark, Option.getD_none, List.append_nil]
      rfl
  unfold readEndTag
  rw [Cursor.skipBlanks_of_stretch hk hblanks, Cursor.takeWhile_of_stretch rfl hname]
  dsimp only
  rw [Cursor.advance_advance, Cursor.skipBlanks_of_stretch rfl hblanks', Cursor.advance_advance,
    hskip]

/-- What stands at a cursor is what is read there. -/
theorem Stands.next_eq {k : Cursor} {outcome : Except ParseError (Token × Cursor)}
    (h : Stands k outcome) : next k = outcome := by
  cases h with
  | @endTag blanks name blanks' mark rest hk hblanks hname hblanks' hmark =>
      have hread := readEndTag_eq (k := k.advance ['<', '/'] _) rfl hblanks hname hblanks' hmark
      rw [Cursor.advance_advance] at hread
      unfold next
      rw [Cursor.skip?_append _ _ hk]
      dsimp only
      rw [hread]
      simp only [List.append_assoc]
  | @comment content rest hk hfirst =>
      have hend : k.skip? ['<', '/'] = none := Cursor.skip?_eq_none _ (by rw [hk]; rfl)
      have htake := takePast_of_firstAt (k := k.advance ['<', '!', '-', '-'] _) (by simp) rfl hfirst
      unfold next
      rw [hend, Cursor.skip?_append _ _ hk]
      dsimp only
      rw [htake, Cursor.advance_advance]
  | @endlessComment content hk hlacks =>
      have hend : k.skip? ['<', '/'] = none := Cursor.skip?_eq_none _ (by rw [hk]; rfl)
      have htake := takePast_of_lacks (k := k.advance ['<', '!', '-', '-'] content) (by simp) hlacks
      unfold next
      rw [hend, Cursor.skip?_append _ _ hk]
      dsimp only
      rw [htake, Cursor.advance_advance]
      rfl
  | @noTagName blanks rest hopens hname =>
      have htake : (k.advance (['<'] ++ blanks) rest).takeWhile isTagChar
          = ([], k.advance (['<'] ++ blanks) rest) :=
        Cursor.takeWhile_of_stretch rfl hname
      rw [hopens.next_eq]
      unfold readStartTag
      rw [hopens.skipBlanks_eq, htake]
      rfl
  | selfClosing htag hrest =>
      rw [htag.next_eq, Cursor.skip?_append _ _ hrest]
  | startTag htag hrest =>
      have hslash := Cursor.skip?_eq_none ['/', '>'] (by rw [hrest]; rfl)
      rw [htag.next_eq, hslash, Cursor.skip?_append _ _ hrest]
  | unclosedTag htag hrest =>
      have hslash := Cursor.skip?_eq_none ['/', '>'] (by rw [hrest]; rfl)
      have hclose := Cursor.skip?_eq_none ['>'] (by rw [hrest]; rfl)
      rw [htag.next_eq, hslash, hclose]
  | @text content rest hk hne htext =>
      have hskip : ∀ mark, k.skip? ('<' :: mark) = none := by
        intro mark
        rw [skip?_eq_none_iff, hk]
        exact htext.not_prefix hne mark
      unfold next
      rw [hskip, hskip, hskip, hk, htext.readText_append]

/-- Attributes are read up to the end of a start tag, or of everything. -/
theorem readAttributes_stops (k : Cursor) :
    ((readAttributes k).2.atEnd || atTagEnd (readAttributes k).2.rest) = true := by
  fun_induction readAttributes k with
  | case1 k k₀ hend => exact hend
  | case2 k k₀ hend name hempty ih => exact ih
  | case3 k k₀ hend name hempty k₁ k₂ hequals value others ih => exact ih
  | case4 k k₀ hend name hempty k₁ hequals others ih => exact ih

/-- After the name of a start tag stands its end, or everything ends. -/
theorem NamesTag.exists_stands {k k' : Cursor} {name : List Char} {attrs : List Attribute}
    (h : NamesTag k name attrs k') : ∃ outcome, Stands k outcome := by
  obtain ⟨blanks, after, -, -, hattrs⟩ := h.attributes
  have hstops := readAttributes_stops (k.advance (['<'] ++ blanks ++ name) after)
  rw [hattrs] at hstops
  simp only [Cursor.atEnd, atTagEnd, Bool.or_eq_true, List.isEmpty_iff,
    List.isPrefixOf_iff_prefix] at hstops
  rcases hstops with hrest | ⟨rest, hrest⟩ | ⟨rest, hrest⟩
  · exact ⟨_, .unclosedTag h hrest⟩
  · exact ⟨_, .startTag h hrest.symm⟩
  · exact ⟨_, .selfClosing h hrest.symm⟩

/-- Where something is left, something stands. -/
theorem exists_stands {k : Cursor} (hk : k.rest ≠ []) : ∃ outcome, Stands k outcome := by
  by_cases hend : ['<', '/'] <+: k.rest
  · obtain ⟨cs, hcs⟩ := hend
    obtain ⟨blanks, cs₁, rfl, hblanks⟩ := Stretch.exists_append isBlank cs
    obtain ⟨name, cs₂, rfl, hname⟩ := Stretch.exists_append isTagChar cs₁
    obtain ⟨blanks', cs₃, rfl, hblanks'⟩ := Stretch.exists_append isBlank cs₂
    by_cases hmark : ['>'] <+: cs₃
    · obtain ⟨rest, rfl⟩ := hmark
      exact ⟨_, .endTag hcs.symm hblanks hname hblanks' (.inl rfl)⟩
    · exact ⟨_, @Stands.endTag k blanks name blanks' [] cs₃ hcs.symm hblanks hname hblanks'
        (.inr ⟨rfl, hmark⟩)⟩
  by_cases hcomment : ['<', '!', '-', '-'] <+: k.rest
  · obtain ⟨cs, hcs⟩ := hcomment
    cases hcut : Text.cutChars ['-', '-', '>'] cs with
    | none => exact ⟨_, .endlessComment hcs.symm ((Text.cutChars_eq_none_iff (by simp)).mp hcut)⟩
    | some parts =>
        obtain ⟨content, rest⟩ := parts
        rw [Text.eq_of_cutChars hcut] at hcs
        exact ⟨_, .comment hcs.symm (Text.firstAt_of_cutChars hcut)⟩
  by_cases htag : ['<'] <+: k.rest
  · obtain ⟨cs, hcs⟩ := htag
    obtain ⟨blanks, cs₁, rfl, hblanks⟩ := Stretch.exists_append isBlank cs
    have hopens : OpensTag k blanks cs₁ := ⟨hcs.symm, hend, hcomment, hblanks⟩
    obtain ⟨name, cs₂, rfl, hname⟩ := Stretch.exists_append isTagChar cs₁
    by_cases hne : name = []
    · subst hne
      exact ⟨_, .noTagName hopens hname⟩
    · exact NamesTag.exists_stands ⟨hne, blanks, cs₂, hopens, hname, rfl⟩
  · cases hread : readText false k.rest with
    | mk content rest =>
        obtain ⟨heq, hstop⟩ := readText_eq hread
        have htext := textRun_readText k.rest
        rw [hread] at htext
        refine ⟨_, .text heq (fun hnil => ?_) htext⟩
        rw [hnil, List.nil_append] at heq
        rcases hstop with hrest | ⟨rest', hrest⟩
        · exact hk (heq.trans hrest)
        · exact htag ⟨rest', (heq.trans hrest).symm⟩

/-- Something stands at a cursor in exactly one way, and that is what is read there. -/
theorem stands_iff {k : Cursor} (hk : k.rest ≠ []) {outcome : Except ParseError (Token × Cursor)} :
    Stands k outcome ↔ next k = outcome := by
  refine ⟨Stands.next_eq, ?_⟩
  rintro rfl
  obtain ⟨outcome, hstands⟩ := exists_stands hk
  rw [hstands.next_eq]
  exact hstands

/-- Nothing stands where everything ends. -/
theorem Stands.rest_ne {k : Cursor} {outcome : Except ParseError (Token × Cursor)}
    (h : Stands k outcome) : k.rest ≠ [] := by
  have hopens : ∀ {blanks rest : List Char}, OpensTag k blanks rest → k.rest ≠ [] := by
    intro blanks rest hopens
    rw [hopens.rest_eq]
    simp
  cases h with
  | endTag hk | comment hk | endlessComment hk =>
      rw [hk]
      simp
  | noTagName hopens' => exact hopens hopens'
  | selfClosing htag | startTag htag | unclosedTag htag =>
      obtain ⟨blanks, after, hopens', -⟩ := htag.attributes
      exact hopens hopens'
  | text hk hne =>
      rw [hk]
      simp [hne]

end Token

end TemplateCompiler
