/-
Lengths that have been written for a platform are no lengths of the design any more.

A length is found by its end: the last digit, perhaps a point after it, the unit, and the
end of a word.  `Ends` says that one ends at a place and `Clear` that none does anywhere,
and a text that is clear is left alone, whatever lengths would be replaced by.

Replacing the unit makes a text clear.  What is put in has no letter in common with the
beginning of the old unit, so no new length begins in it; and what is kept cannot be
completed to a length by what was put in after it, because the characters that would
complete it, and the end of a word, stood there before.  Spelling out quotes does not bring
a length back for the same reason, so a style that was written for a platform, printed and
read again is written the same way.
-/
import TemplateCompiler.Proofs.Reading.StartTag
import TemplateCompiler.Style.Normalize

namespace TemplateCompiler

namespace Length

/-! ### Where a length ends -/

/-- A length ends in the first digit of the text: after it stand the unit and the end of a word,
with perhaps a point before the unit. -/
inductive Ends : List Char → Prop
  | digit {c : Char} {rest : List Char} (hdigit : isWordDigit c = true)
      (hword : wordEndsBefore rest = true) : Ends (c :: 'c' :: 'p' :: 'x' :: rest)
  | point {c : Char} {rest : List Char} (hdigit : isWordDigit c = true)
      (hword : wordEndsBefore rest = true) : Ends (c :: '.' :: 'c' :: 'p' :: 'x' :: rest)

theorem Ends.isWordDigit {c : Char} {cs : List Char} (h : Ends (c :: cs)) :
    isWordDigit c = true := by
  cases h with
  | digit hc | point hc => exact hc

/-- The unit begins right after the digit or after a point. -/
theorem Ends.second {c d : Char} {cs : List Char} (h : Ends (c :: d :: cs)) :
    d = 'c' ∨ d = '.' ∧ cs.head? = some 'c' := by
  cases h with
  | digit => exact .inl rfl
  | point => exact .inr ⟨rfl, rfl⟩

/-- No length ends anywhere in the text. -/
def Clear : List Char → Prop
  | [] => True
  | c :: rest => ¬ Ends (c :: rest) ∧ Clear rest

theorem Clear.of_append {cs ds : List Char} (h : Clear (cs ++ ds)) : Clear ds := by
  induction cs with
  | nil => exact h
  | cons c cs ih => exact ih h.2

/-- What numbers are made of. -/
def IsNumberChar (c : Char) : Prop := isWordDigit c = true ∨ c = '.' ∨ c = '-'

theorem IsNumberChar.ne {c d : Char} (h : IsNumberChar c) (hdigit : isWordDigit d = false)
    (hpoint : d ≠ '.') (hsign : d ≠ '-') : c ≠ d := by
  rintro rfl
  rcases h with h | h | h
  · rw [hdigit] at h
    cases h
  · exact hpoint h
  · exact hsign h

/-- A number as lengths have it: it ends in a digit, or in a digit and a point. -/
structure IsNumber (number : List Char) : Prop where
  chars : ∀ c ∈ number, IsNumberChar c
  last : ∃ front c, isWordDigit c = true ∧ (number = front ++ [c] ∨ number = front ++ [c, '.'])

theorem IsNumber.ne_nil {number : List Char} (h : IsNumber number) : number ≠ [] := by
  obtain ⟨front, c, -, rfl | rfl⟩ := h.last
  · simp
  · simp

/-- Digits before a number, or other characters of numbers, make another number. -/
theorem IsNumber.append {front number : List Char} (h : IsNumber number)
    (hfront : ∀ c ∈ front, IsNumberChar c) : IsNumber (front ++ number) where
  chars c hc := by
    rcases List.mem_append.mp hc with hc | hc
    · exact hfront c hc
    · exact h.chars c hc
  last := by
    obtain ⟨front', c, hc, rfl | rfl⟩ := h.last
    · exact ⟨front ++ front', c, hc, .inl (by simp)⟩
    · exact ⟨front ++ front', c, hc, .inr (by simp)⟩

theorem splitDigits_eq {cs digits rest : List Char} (h : splitDigits cs = (digits, rest)) :
    cs = digits ++ rest ∧ ∀ c ∈ digits, isWordDigit c = true := by
  unfold splitDigits at h
  cases h
  exact ⟨List.takeWhile_append_dropWhile.symm, fun c hc => List.mem_takeWhile_imp hc⟩

/-- Digits make a number, with a point after them or without. -/
theorem isNumber_digits {digits : List Char} (hne : digits ≠ [])
    (h : ∀ c ∈ digits, isWordDigit c = true) : IsNumber digits ∧ IsNumber (digits ++ ['.']) := by
  obtain ⟨front, c, rfl⟩ : ∃ front c, digits = front ++ [c] := by
    simpa using (List.eq_nil_or_concat digits).resolve_left hne
  have hlast : isWordDigit c = true := h c (by simp)
  refine ⟨⟨fun d hd => .inl (h d hd), front, c, hlast, .inl rfl⟩, fun d hd => ?_, front, c, hlast,
    .inr (by simp)⟩
  rcases List.mem_append.mp hd with hd | hd
  · exact .inl (h d hd)
  · exact .inr (.inl (List.mem_singleton.mp hd))

theorem splitUnsigned?_eq {cs number rest : List Char}
    (h : splitUnsigned? cs = some (number, rest)) : cs = number ++ rest ∧ IsNumber number := by
  have hpoint : ∀ c ∈ ['.'], IsNumberChar c := by
    intro c hc
    exact .inr (.inl (List.mem_singleton.mp hc))
  unfold splitUnsigned? at h
  split at h
  · rename_i left heq
    obtain ⟨rfl, -⟩ := splitDigits_eq heq
    split at h
    · cases h
    · rename_i hne heq'
      cases h
      obtain ⟨rfl, hdigits⟩ := splitDigits_eq heq'
      exact ⟨rfl, (isNumber_digits hne hdigits).1.append hpoint⟩
  · cases h
  · rename_i whole left hne heq
    obtain ⟨rfl, hdigits⟩ := splitDigits_eq heq
    simp only [Option.some.injEq, Prod.mk.injEq] at h
    obtain ⟨rfl, rfl⟩ := h
    cases hsplit : splitDigits left with
    | mk fraction rest =>
        obtain ⟨rfl, hfraction⟩ := splitDigits_eq hsplit
        refine ⟨by simp, ?_⟩
        rw [show whole ++ '.' :: fraction = whole ++ ['.'] ++ fraction by simp]
        by_cases hnil : fraction = []
        · rw [hnil, List.append_nil]
          exact (isNumber_digits hne hdigits).2
        · exact (isNumber_digits hnil hfraction).1.append (isNumber_digits hne hdigits).2.chars
  · rename_i hne hnopoint heq
    cases h
    obtain ⟨rfl, hdigits⟩ := splitDigits_eq heq
    exact ⟨rfl, (isNumber_digits hne hdigits).1⟩

theorem splitNumber?_eq {cs number rest : List Char}
    (h : splitNumber? cs = some (number, rest)) : cs = number ++ rest ∧ IsNumber number := by
  unfold splitNumber? at h
  split at h
  · obtain ⟨⟨unsigned, left⟩, hunsigned, heq⟩ := Option.map_eq_some_iff.mp h
    cases heq
    obtain ⟨rfl, hnumber⟩ := splitUnsigned?_eq hunsigned
    have hsign : ∀ c ∈ ['-'], IsNumberChar c := by
      intro c hc
      exact .inr (.inr (List.mem_singleton.mp hc))
    exact ⟨rfl, hnumber.append hsign⟩
  · exact splitUnsigned?_eq h

/-- A length is its number and the unit, and it is the end of a word. -/
theorem split?_eq {cs number rest : List Char} (h : split? cs = some (number, rest)) :
    cs = number ++ 'c' :: 'p' :: 'x' :: rest ∧ IsNumber number ∧ wordEndsBefore rest = true := by
  unfold split? at h
  split at h
  · rename_i number' left hsplit
    obtain ⟨rest', hunit, heq⟩ := Option.map_eq_some_iff.mp h
    cases heq
    obtain ⟨rfl, hnumber⟩ := splitNumber?_eq hsplit
    unfold splitUnit? at hunit
    split at hunit
    · split at hunit
      · rename_i hword
        cases hunit
        exact ⟨rfl, hnumber, hword⟩
      · cases hunit
    · cases hunit
  · cases h

/-- In a clear text no length is found. -/
theorem Clear.split?_eq_none {cs : List Char} (h : Clear cs) : split? cs = none := by
  cases hsplit : split? cs with
  | none => rfl
  | some parts =>
      obtain ⟨number, rest⟩ := parts
      obtain ⟨rfl, hnumber, hword⟩ := split?_eq hsplit
      obtain ⟨front, c, hc, rfl | rfl⟩ := hnumber.last
      · rw [List.append_assoc] at h
        exact absurd (.digit hc hword) h.of_append.1
      · rw [List.append_assoc] at h
        exact absurd (.point hc hword) h.of_append.1

theorem splitDigits_of_digit {c : Char} {rest : List Char} (hc : isWordDigit c = true)
    (hrest : ∀ d, rest.head? = some d → isWordDigit d = false) :
    splitDigits (c :: rest) = ([c], rest) := by
  unfold splitDigits
  rw [List.takeWhile_cons_of_pos hc, List.dropWhile_cons_of_pos hc]
  cases rest with
  | nil => rfl
  | cons d rest => simp [hrest d rfl]

theorem splitNumber?_of_ne {c : Char} {rest : List Char} (hc : c ≠ '-') :
    splitNumber? (c :: rest) = splitUnsigned? (c :: rest) := by
  unfold splitNumber?
  split
  · rename_i heq
    exact absurd (List.cons.inj heq).1 hc
  · rfl

theorem splitNumber?_of_digit {c : Char} {rest : List Char} (hc : isWordDigit c = true) :
    splitNumber? (c :: rest) = splitUnsigned? (c :: rest) := by
  refine splitNumber?_of_ne ?_
  rintro rfl
  exact absurd hc (by decide)

/-- A length that ends in the first digit is found there. -/
theorem split?_ne_none_of_ends {cs : List Char} (h : Ends cs) : split? cs ≠ none := by
  unfold split?
  cases h with
  | @digit c rest hc hword =>
      have hdigits : splitDigits (c :: 'c' :: 'p' :: 'x' :: rest)
          = ([c], 'c' :: 'p' :: 'x' :: rest) :=
        splitDigits_of_digit hc fun d hd => by
          cases hd
          decide
      have hnumber : splitUnsigned? (c :: 'c' :: 'p' :: 'x' :: rest)
          = some ([c], 'c' :: 'p' :: 'x' :: rest) := by
        unfold splitUnsigned?
        rw [hdigits]
        rfl
      rw [splitNumber?_of_digit hc, hnumber]
      simp [splitUnit?, hword]
  | @point c rest hc hword =>
      have hdigits : splitDigits (c :: '.' :: 'c' :: 'p' :: 'x' :: rest)
          = ([c], '.' :: 'c' :: 'p' :: 'x' :: rest) :=
        splitDigits_of_digit hc fun d hd => by
          cases hd
          decide
      have hnone : splitDigits ('c' :: 'p' :: 'x' :: rest) = ([], 'c' :: 'p' :: 'x' :: rest) := by
        have hunit : isWordDigit 'c' = false := by decide
        unfold splitDigits
        simp [hunit]
      have hnumber : splitUnsigned? (c :: '.' :: 'c' :: 'p' :: 'x' :: rest)
          = some ([c, '.'], 'c' :: 'p' :: 'x' :: rest) := by
        unfold splitUnsigned?
        rw [hdigits]
        show some (_ ++ '.' :: (splitDigits ('c' :: 'p' :: 'x' :: rest)).1, _) = _
        rw [hnone]
        rfl
      rw [splitNumber?_of_digit hc, hnumber]
      simp [splitUnit?, hword]

/-! ### Replacing -/

theorem replaceAll_of_none (f : List Char → List Char) {c : Char} {rest : List Char}
    (h : split? (c :: rest) = none) : replaceAll f (c :: rest) = c :: replaceAll f rest := by
  rw [replaceAll]
  split
  · rename_i h'
    rw [h] at h'
    cases h'
  · rfl

theorem replaceAll_of_some (f : List Char → List Char) {c : Char} {rest number left : List Char}
    (h : split? (c :: rest) = some (number, left)) :
    replaceAll f (c :: rest) = f number ++ replaceAll f left := by
  rw [replaceAll]
  split
  · rename_i h'
    rw [h] at h'
    cases h'
    rfl
  · rename_i h'
    rw [h] at h'
    cases h'

/-- A clear text is left alone. -/
theorem Clear.replaceAll_eq {cs : List Char} (h : Clear cs) (f : List Char → List Char) :
    replaceAll f cs = cs := by
  induction cs with
  | nil => rw [replaceAll]
  | cons c rest ih => rw [replaceAll_of_none f h.split?_eq_none, ih h.2]

/-! ### What keeps lengths from ending -/

/-- The text `g cs` has the letters of the unit, a point before them and the end of a word only
where `cs` has them. -/
structure Mirrors (g : List Char → List Char) : Prop where
  letter : ∀ c ∈ ['c', 'p', 'x'], ∀ cs rest, g cs = c :: rest →
    ∃ cs', cs = c :: cs' ∧ g cs' = rest
  point : ∀ cs rest, g cs = '.' :: 'c' :: rest → ∃ cs', cs = '.' :: cs' ∧ g cs' = 'c' :: rest
  ends : ∀ cs, wordEndsBefore (g cs) = wordEndsBefore cs

namespace Mirrors

variable {g : List Char → List Char}

theorem unit (h : Mirrors g) {cs rest : List Char} (hcs : g cs = 'c' :: 'p' :: 'x' :: rest) :
    ∃ cs', cs = 'c' :: 'p' :: 'x' :: cs' ∧ g cs' = rest := by
  obtain ⟨cs₁, rfl, h₁⟩ := h.letter 'c' (by simp) _ _ hcs
  obtain ⟨cs₂, rfl, h₂⟩ := h.letter 'p' (by simp) _ _ h₁
  obtain ⟨cs₃, rfl, h₃⟩ := h.letter 'x' (by simp) _ _ h₂
  exact ⟨cs₃, rfl, h₃⟩

/-- A length that ends after the change ended there before. -/
theorem ends_of_ends (h : Mirrors g) {c : Char} {cs : List Char} (hends : Ends (c :: g cs)) :
    Ends (c :: cs) := by
  cases hcs : g cs with
  | nil =>
      rw [hcs] at hends
      cases hends
  | cons d ds =>
      rw [hcs] at hends
      cases hends with
      | digit hc hword =>
          obtain ⟨cs', rfl, hrest⟩ := h.unit hcs
          rw [← hrest, h.ends] at hword
          exact .digit hc hword
      | point hc hword =>
          obtain ⟨cs₁, rfl, h₁⟩ := h.point _ _ hcs
          obtain ⟨cs', rfl, hrest⟩ := h.unit h₁
          rw [← hrest, h.ends] at hword
          exact .point hc hword

end Mirrors

/-- A character that neither numbers nor words go on with. -/
structure Stops (d : Char) : Prop where
  word : isWordChar d = false
  point : d ≠ '.'
  sign : d ≠ '-'

namespace Stops

variable {d : Char} {front back : List Char}

theorem digit (hd : Stops d) : isWordDigit d = false := by
  rw [← Bool.not_eq_true]
  intro hdigit
  have hword := isWordChar_of_isWordDigit hdigit
  rw [hd.word] at hword
  cases hword

/-- Letters are characters of words. -/
theorem letter (hd : Stops d) : ∀ c ∈ ['c', 'p', 'x'], d ≠ c := by
  have hletters : ['c', 'p', 'x'].all isWordChar = true := by decide +kernel
  rintro c hc rfl
  have hword := List.all_eq_true.mp hletters d hc
  rw [hd.word] at hword
  cases hword

theorem mirrors (hd : Stops d) (back : List Char) : Mirrors (· ++ d :: back) where
  letter c hc cs rest hcs := by
    cases cs with
    | nil => exact absurd (List.cons.inj hcs).1 (hd.letter c hc)
    | cons e cs => exact ⟨cs, by rw [(List.cons.inj hcs).1], (List.cons.inj hcs).2⟩
  point cs rest hcs := by
    cases cs with
    | nil => exact absurd (List.cons.inj hcs).1 hd.point
    | cons e cs => exact ⟨cs, by rw [(List.cons.inj hcs).1], (List.cons.inj hcs).2⟩
  ends cs := by
    cases cs with
    | nil =>
        show (!isWordChar d) = true
        rw [hd.word]
        rfl
    | cons e cs => rfl

/-- Across such a character no length ends, and it does not keep one from ending before it. -/
theorem clear_append (hd : Stops d) : Clear (front ++ d :: back) ↔ Clear front ∧ Clear back := by
  induction front with
  | nil =>
      refine ⟨fun h => ⟨trivial, h.2⟩, fun h => ⟨fun hends => ?_, h.2⟩⟩
      have hdigit := hends.isWordDigit
      rw [hd.digit] at hdigit
      cases hdigit
  | cons c front ih =>
      have hends : Ends (c :: (front ++ d :: back)) ↔ Ends (c :: front) := by
        refine ⟨(hd.mirrors back).ends_of_ends, fun h => ?_⟩
        cases h with
        | digit hc hword => exact .digit hc (((hd.mirrors back).ends _).trans hword)
        | point hc hword => exact .point hc (((hd.mirrors back).ends _).trans hword)
      exact (and_congr (not_congr hends) ih).trans and_assoc.symm

end Stops

/-- No length ends in characters that are no digits. -/
theorem Clear.append {front rest : List Char} (h : Clear rest)
    (hfront : ∀ c ∈ front, isWordDigit c = false) : Clear (front ++ rest) := by
  induction front with
  | nil => exact h
  | cons c front ih =>
      refine ⟨fun hends => ?_, ih fun d hd => hfront d (by simp [hd])⟩
      have hc := hends.isWordDigit
      rw [hfront c (by simp)] at hc
      cases hc

/-- Characters that a new unit may be made of. -/
def IsUnitChar (c : Char) : Prop := c ≠ 'c' ∧ c ≠ '.' ∧ isWordDigit c = false

instance (c : Char) : Decidable (IsUnitChar c) := inferInstanceAs (Decidable (_ ∧ _ ∧ _))

/-- A number with another unit holds no length. -/
theorem Clear.append_unit {number unit rest : List Char} (h : Clear rest) (hne : unit ≠ [])
    (hunit : ∀ c ∈ unit, IsUnitChar c) (hnumber : ∀ c ∈ number, IsNumberChar c) :
    Clear (number ++ (unit ++ rest)) := by
  have hletter : ∀ {c : Char}, IsNumberChar c → c ≠ 'c' := fun hc =>
    hc.ne (by decide) (by decide) (by decide)
  obtain ⟨u, us, rfl⟩ := List.exists_cons_of_ne_nil hne
  obtain ⟨hu, hu', -⟩ := hunit u (by simp)
  induction number with
  | nil => exact h.append fun c hc => (hunit c hc).2.2
  | cons c number ih =>
      refine ⟨fun hends => ?_, ih fun d hd => hnumber d (by simp [hd])⟩
      cases number with
      | nil =>
          rcases hends.second with heq | ⟨heq, -⟩
          · exact hu heq
          · exact hu' heq
      | cons d number =>
          rcases hends.second with heq | ⟨-, hhead⟩
          · exact hletter (hnumber d (by simp)) heq
          · cases number with
            | nil => exact hu (Option.some.inj hhead)
            | cons e number => exact hletter (hnumber e (by simp)) (Option.some.inj hhead)

/-! ### Texts with another unit -/

section

variable {unit : List Char}

/-- Replacing the unit keeps the first character, and of a length it keeps the number. -/
theorem replaceAll_cases (unit cs : List Char) :
    cs = [] ∧ replaceAll (· ++ unit) cs = [] ∨
      (∃ c rest, cs = c :: rest ∧ split? (c :: rest) = none ∧
        replaceAll (· ++ unit) cs = c :: replaceAll (· ++ unit) rest) ∨
      ∃ number left, split? cs = some (number, left) ∧
        cs = number ++ 'c' :: 'p' :: 'x' :: left ∧ IsNumber number ∧
        replaceAll (· ++ unit) cs = number ++ (unit ++ replaceAll (· ++ unit) left) := by
  cases cs with
  | nil => exact .inl ⟨rfl, by rw [replaceAll]⟩
  | cons c rest =>
      cases hsplit : split? (c :: rest) with
      | none => exact .inr (.inl ⟨c, rest, rfl, hsplit, replaceAll_of_none _ hsplit⟩)
      | some parts =>
          obtain ⟨number, left⟩ := parts
          obtain ⟨heq, hnumber, -⟩ := split?_eq hsplit
          refine .inr (.inr ⟨number, left, rfl, heq, hnumber, ?_⟩)
          rw [replaceAll_of_some _ hsplit, List.append_assoc]

theorem mirrors_replaceAll (hne : unit ≠ []) (hunit : ∀ c ∈ unit, IsUnitChar c) :
    Mirrors (replaceAll (· ++ unit)) where
  letter c hc cs rest hcs := by
    have hplain : ∀ c ∈ ['c', 'p', 'x'], isWordDigit c = false ∧ c ≠ '.' ∧ c ≠ '-' := by
      simp only [List.mem_cons, List.not_mem_nil, or_false, forall_eq_or_imp, forall_eq]
      decide
    obtain ⟨hdigit, hpoint, hsign⟩ := hplain c hc
    rcases replaceAll_cases unit cs with
      ⟨-, hnil⟩ | ⟨d, ds, rfl, -, hcons⟩ | ⟨number, left, -, -, hnumber, happend⟩
    · rw [hnil] at hcs
      cases hcs
    · rw [hcons, List.cons.injEq] at hcs
      exact ⟨ds, by rw [hcs.1], hcs.2⟩
    · obtain ⟨d, number, rfl⟩ := List.exists_cons_of_ne_nil hnumber.ne_nil
      rw [happend, List.cons_append, List.cons.injEq] at hcs
      exact absurd hcs.1 ((hnumber.chars d (by simp)).ne hdigit hpoint hsign)
  point cs rest hcs := by
    rcases replaceAll_cases unit cs with
      ⟨-, hnil⟩ | ⟨d, ds, rfl, -, hcons⟩ | ⟨number, left, -, -, hnumber, happend⟩
    · rw [hnil] at hcs
      cases hcs
    · rw [hcons, List.cons.injEq] at hcs
      exact ⟨ds, by rw [hcs.1], hcs.2⟩
    · -- What follows a point in a number is another of its characters, or the new unit.
      obtain ⟨d, number, rfl⟩ := List.exists_cons_of_ne_nil hnumber.ne_nil
      obtain ⟨u, us, rfl⟩ := List.exists_cons_of_ne_nil hne
      rw [happend, List.cons_append, List.cons.injEq] at hcs
      cases number with
      | nil => exact absurd (List.cons.inj hcs.2).1 (hunit u (by simp)).1
      | cons e number =>
          exact absurd (List.cons.inj hcs.2).1
            ((hnumber.chars e (by simp)).ne (by decide) (by decide) (by decide))
  ends cs := by
    rcases replaceAll_cases unit cs with
      ⟨rfl, hnil⟩ | ⟨d, ds, rfl, -, hcons⟩ | ⟨number, left, -, rfl, hnumber, happend⟩
    · rw [hnil]
    · rw [hcons]
      rfl
    · obtain ⟨d, number, rfl⟩ := List.exists_cons_of_ne_nil hnumber.ne_nil
      rw [happend]
      rfl

/-- Where the unit has been replaced, no length is left. -/
theorem clear_replaceAll (hne : unit ≠ []) (hunit : ∀ c ∈ unit, IsUnitChar c) (cs : List Char) :
    Clear (replaceAll (· ++ unit) cs) := by
  rcases replaceAll_cases unit cs with
    ⟨-, hnil⟩ | ⟨d, ds, rfl, hnone, hcons⟩ | ⟨number, left, hsplit, -, hnumber, happend⟩
  · rw [hnil]
    trivial
  · rw [hcons]
    refine ⟨fun hends => ?_, clear_replaceAll hne hunit ds⟩
    exact split?_ne_none_of_ends ((mirrors_replaceAll hne hunit).ends_of_ends hends) hnone
  · have hlt := length_split?_lt hsplit
    rw [happend]
    exact (clear_replaceAll hne hunit left).append_unit hne hunit hnumber.chars
termination_by cs.length

end

/-! ### Texts with quotes spelled out -/

theorem mirrors_escapeValue : Mirrors escapeValue := by
  have hcons : ∀ {c : Char} {cs rest : List Char}, c ≠ '&' → escapeValue cs = c :: rest →
      ∃ cs', cs = c :: cs' ∧ escapeValue cs' = rest := by
    intro c cs rest hc hcs
    cases cs with
    | nil => cases hcs
    | cons d ds =>
        by_cases hquote : d = '"'
        · subst hquote
          exact absurd (List.cons.inj hcs).1.symm hc
        · rw [escapeValue_cons_of_ne hquote] at hcs
          obtain ⟨rfl, hrest⟩ := List.cons.inj hcs
          exact ⟨ds, rfl, hrest⟩
  refine ⟨fun c hc cs rest hcs => hcons ?_ hcs, fun cs rest hcs => hcons (by decide) hcs,
    fun cs => ?_⟩
  · rintro rfl
    exact absurd hc (by decide)
  · cases cs with
    | nil => rfl
    | cons d ds =>
        by_cases hquote : d = '"'
        · -- The quote and the character that it is spelled with both end a word.
          have hends : isWordChar '&' = false ∧ isWordChar '"' = false := by decide +kernel
          subst hquote
          show (!isWordChar '&') = !isWordChar '"'
          rw [hends.1, hends.2]
        · rw [escapeValue_cons_of_ne hquote]
          rfl

/-- Spelling out quotes brings no length back. -/
theorem Clear.escapeValue {cs : List Char} (h : Clear cs) : Clear (escapeValue cs) := by
  induction cs with
  | nil => trivial
  | cons c cs ih =>
      by_cases hquote : c = '"'
      · have hspelled : "&quot;".toList.all (fun c => isWordDigit c == false) = true := by decide
        subst hquote
        exact (ih h.2).append fun d hd => beq_iff_eq.mp (List.all_eq_true.mp hspelled d hd)
      · rw [escapeValue_cons_of_ne hquote]
        exact ⟨fun hends => h.1 (mirrors_escapeValue.ends_of_ends hends), ih h.2⟩

end Length

namespace Style

variable {target : Target}

theorem normalizeChars_eq (hmini : target.isMiniProgram = true) (config : Option StyleConfig)
    (cs : List Char) :
    normalizeChars target config cs = Length.replaceAll (· ++ ['r', 'p', 'x']) cs := by
  cases target with
  | web | weex => cases hmini
  | wx | alipay | baidu => rfl

/-- The unit of mini programs has no letter in common with the beginning of the old one. -/
theorem isUnitChar_rpx : ∀ c ∈ ['r', 'p', 'x'], Length.IsUnitChar c := by
  simp only [List.mem_cons, List.not_mem_nil, or_false, forall_eq_or_imp, forall_eq]
  decide

/-- A style that has been written for a mini-program platform is written the same way again, and
so it is when its quotes have been spelled out in between. -/
theorem normalize_escapeText (hmini : target.isMiniProgram = true) (config : Option StyleConfig)
    {style : String} (h : normalize target config style = style) :
    normalize target config (escapeText style) = escapeText style := by
  have hclear : Length.Clear style.toList := by
    rw [← h]
    unfold normalize
    rw [String.toList_ofList, normalizeChars_eq hmini]
    exact Length.clear_replaceAll (by simp) isUnitChar_rpx _
  unfold normalize escapeText
  rw [String.toList_ofList, normalizeChars_eq hmini, hclear.escapeValue.replaceAll_eq]

theorem normalize_normalize (hmini : target.isMiniProgram = true) (config : Option StyleConfig)
    (style : String) :
    normalize target config (normalize target config style) = normalize target config style := by
  have hclear := Length.clear_replaceAll (by simp) isUnitChar_rpx style.toList
  unfold normalize
  rw [String.toList_ofList, normalizeChars_eq hmini, normalizeChars_eq hmini, hclear.replaceAll_eq]

end Style

end TemplateCompiler
