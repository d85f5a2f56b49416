/-
Text and comments.

Text is the one token whose end depends on what follows, so the theory is shaped by it.
Reading text stops at a `<` outside every interpolation, or where everything ends; text
that stopped at a tag stops there whatever the tag is, and cannot be told apart from text
before another tag.  A comment is simpler: its content does not hold the mark that ends
it, and the mark cannot begin inside the content and end in the printed mark.
-/
import TemplateCompiler.Markup.Token

namespace TemplateCompiler

namespace Token

/-! ### Text -/

/-- The second character of a mark stands next. -/
theorem eq_cons_of_head? {c m : Char} {rest : List Char}
    (h : (c == m && rest.head? == some m) = true) : rest = m :: rest.drop 1 := by
  rw [Bool.and_eq_true, beq_iff_eq, beq_iff_eq] at h
  cases rest with
  | nil => cases h.2
  | cons r rest =>
      have hr := h.2
      rw [List.head?_cons, Option.some.injEq] at hr
      rw [hr]
      rfl

/-- Text that is read is what stood there, and it stops at a tag or at the end. -/
theorem readText_eq {inside : Bool} {cs content left : List Char}
    (h : readText inside cs = (content, left)) :
    cs = content ++ left ∧ (left = [] ∨ ∃ rest, left = '<' :: rest) := by
  fun_induction readText inside cs generalizing content left with
  | case1 =>
      cases h
      exact ⟨rfl, Or.inl rfl⟩
  | case2 c rest hmark content' left' hrec ih =>
      cases h
      obtain ⟨hcs, hleft⟩ := ih hrec
      rw [eq_cons_of_head? hmark, hcs]
      exact ⟨rfl, hleft⟩
  | case3 c rest hmark content' left' hrec ih =>
      cases h
      obtain ⟨hcs, hleft⟩ := ih hrec
      rw [hcs]
      exact ⟨rfl, hleft⟩
  | case4 inside c rest hinside hmark content' left' hrec ih =>
      cases h
      obtain ⟨hcs, hleft⟩ := ih hrec
      rw [eq_cons_of_head? hmark, hcs]
      exact ⟨rfl, hleft⟩
  | case5 inside c rest hinside hmark htag =>
      cases h
      rw [beq_iff_eq] at htag
      exact ⟨rfl, Or.inr ⟨rest, by rw [htag]⟩⟩
  | case6 inside c rest hinside hmark htag content' left' hrec ih =>
      cases h
      obtain ⟨hcs, hleft⟩ := ih hrec
      rw [hcs]
      exact ⟨rfl, hleft⟩

/-- Text that stops at a tag stops there whatever the tag is. -/
theorem readText_append {inside : Bool} {cs content rest : List Char}
    (h : readText inside cs = (content, '<' :: rest)) (rest' : List Char) :
    readText inside (content ++ '<' :: rest') = (content, '<' :: rest') := by
  have hhead : ∀ (cs : List Char), (cs ++ '<' :: rest).head? = (cs ++ '<' :: rest').head? := by
    intro cs
    cases cs <;> rfl
  fun_induction readText inside cs generalizing content rest with
  | case1 => cases h
  | case2 c cs hmark content' left' hrec ih =>
      cases h
      rw [List.cons_append, List.cons_append, readText]
      simp [ih hrec hhead, (beq_iff_eq.mp (Bool.and_eq_true_iff.mp hmark).1)]
  | case3 c cs hmark content' left' hrec ih =>
      cases h
      rw [(readText_eq hrec).1, hhead] at hmark
      rw [List.cons_append, readText, if_pos rfl, if_neg hmark, ih hrec hhead]
  | case4 inside c cs hinside hmark content' left' hrec ih =>
      cases h
      rw [List.cons_append, List.cons_append, readText, if_neg hinside]
      simp [ih hrec hhead, (beq_iff_eq.mp (Bool.and_eq_true_iff.mp hmark).1)]
  | case5 inside c cs hinside hmark htag =>
      cases h
      rw [List.nil_append, readText, if_neg hinside]
      simp
  | case6 inside c cs hinside hmark htag content' left' hrec ih =>
      cases h
      rw [(readText_eq hrec).1, hhead] at hmark
      have hfalse : inside = false := by simpa using hinside
      subst hfalse
      rw [List.cons_append, readText, if_neg hinside, if_neg hmark, if_neg htag, ih hrec hhead]

/-- Text that ends outside every interpolation, as all text before a tag does. -/
def StopsAtTag (content : List Char) : Prop :=
  ∀ rest, readText false (content ++ '<' :: rest) = (content, '<' :: rest)

/-- Text that is read has at least one character and does not begin with a tag. -/
theorem head?_ne_of_readText {content left cs : List Char} (hne : content ≠ [])
    (h : readText false cs = (content, left)) : content.head? ≠ some '<' := by
  intro hhead
  obtain ⟨rest, rfl⟩ : ∃ rest, content = '<' :: rest := by
    cases content with
    | nil => exact absurd rfl hne
    | cons c rest =>
        rw [List.head?_cons, Option.some.injEq] at hhead
        exact ⟨rest, by rw [hhead]⟩
  rw [(readText_eq h).1, List.cons_append, readText] at h
  simp at h

end Token

/-! ### Comments -/

namespace Text

/-- What stands before the first occurrence of a mark does not hold the mark. -/
theorem cutChars_eq_none_of_cutChars {mark cs before after : List Char} (hmark : mark ≠ [])
    (h : cutChars mark cs = some (before, after)) : cutChars mark before = none := by
  have hnil : cutChars mark [] = none := by
    cases mark with
    | nil => exact absurd rfl hmark
    | cons m mark => rfl
  induction cs generalizing before with
  | nil =>
      rw [hnil] at h
      cases h
  | cons c cs ih =>
      simp only [cutChars] at h
      split at h
      · cases h
        exact hnil
      · rename_i hfront
        obtain ⟨⟨before', after⟩, hcut, heq⟩ := Option.map_eq_some_iff.mp h
        cases heq
        simp only [cutChars]
        cases hfront' : afterChars? mark (c :: before') with
        | none =>
            show (cutChars mark before').map _ = none
            rw [ih hcut]
            rfl
        | some left =>
            -- The mark would stand at the front of the whole, too.
            exfalso
            have heq := eq_append_of_afterChars? hfront'
            have hwhole : c :: cs = mark ++ (left ++ mark ++ after) := by
              rw [eq_of_cutChars hcut, ← List.cons_append, ← List.cons_append, heq]
              simp
            rw [hwhole, afterChars?_append] at hfront
            cases hfront

/-- The mark that ends a comment is found after a content that does not hold it: it cannot
begin inside the content and end in the mark, because its last character is not among its
first two. -/
theorem cutChars_append_commentEnd {content : List Char}
    (h : cutChars ['-', '-', '>'] content = none) (rest : List Char) :
    cutChars ['-', '-', '>'] (content ++ ['-', '-', '>'] ++ rest) = some (content, rest) := by
  induction content with
  | nil => rfl
  | cons c content ih =>
      simp only [cutChars] at h
      split at h
      · cases h
      · rename_i hfront
        have hrest : cutChars ['-', '-', '>'] content = none := by
          cases hcut : cutChars ['-', '-', '>'] content with
          | none => rfl
          | some parts => rw [hcut] at h; cases h
        have hfront' :
            afterChars? ['-', '-', '>'] (c :: (content ++ ['-', '-', '>'] ++ rest)) = none := by
          rcases content with _ | ⟨c₂, _ | ⟨c₃, content⟩⟩
          · simp [afterChars?]
          · simp [afterChars?]
          · simpa [afterChars?] using hfront
        rw [List.cons_append, List.cons_append, cutChars, hfront', ih hrest]
        rfl

end Text

end TemplateCompiler
