/-
Names, and the steps of a cursor.

The statements on cursors speak of what is left to read and never of offsets, because an
offset has no influence on what is read.  A name is a nonempty text of characters of one
kind; it is taken whole from where it stands, if what follows cannot go on with it, and
no character of a name is a blank, so blanks before a name are all that is passed over.
-/
import Mathlib.Data.List.TakeWhile
import TemplateCompiler.Markup.Token

namespace TemplateCompiler

/-! ### Characters of names -/

theorem isAttributeNameChar_of_isTagChar {c : Char} (h : isTagChar c = true) :
    isAttributeNameChar c = true := by
  unfold isAttributeNameChar
  rw [h]
  rfl

theorem toNat_of_isAlphanum {c : Char} (h : c.isAlphanum = true) :
    0x30 ≤ c.toNat ∧ c.toNat ≤ 0x7a := by
  delta Char.isAlphanum Char.isAlpha Char.isUpper Char.isLower Char.isDigit at h
  simp only [Bool.or_eq_true, Bool.and_eq_true, decide_eq_true_eq, UInt32.le_iff_toNat_le,
    ge_iff_le] at h
  change ((65 ≤ c.toNat ∧ c.toNat ≤ 90) ∨ (97 ≤ c.toNat ∧ c.toNat ≤ 122)) ∨
    (48 ≤ c.toNat ∧ c.toNat ≤ 57) at h
  omega

/-- No character of a name is a blank. -/
theorem isBlank_of_isAttributeNameChar {c : Char} (h : isAttributeNameChar c = true) :
    isBlank c = false := by
  simp only [isAttributeNameChar, isTagChar, Bool.or_eq_true, beq_iff_eq] at h
  rcases h with (((((((((h | h) | h) | h) | h) | h) | h) | h) | h) | h)
  · -- Letters and digits lie above the ASCII blanks and below all others.
    have hrange := toNat_of_isAlphanum h
    simp only [isBlank, CodeRanges.has, blankRanges, List.any_cons, List.any_nil, Bool.or_false,
      Bool.or_eq_false_iff, Bool.and_eq_false_iff, decide_eq_false_iff_not]
    omega
  all_goals
    subst h
    decide

theorem isAttributeNameChar_of_isBlank {c : Char} (h : isBlank c = true) :
    isAttributeNameChar c = false := by
  by_contra hname
  rw [Bool.not_eq_false] at hname
  rw [isBlank_of_isAttributeNameChar hname] at h
  cases h

/-- A nonempty text of characters of one kind. -/
def IsNameOf (p : Char → Bool) (name : String) : Prop :=
  name.toList ≠ [] ∧ ∀ c ∈ name.toList, p c = true

/-- The name of a tag. -/
abbrev IsTagName (name : String) : Prop := IsNameOf isTagChar name

/-- The name of an attribute. -/
abbrev IsAttributeName (name : String) : Prop := IsNameOf isAttributeNameChar name

-- The characters of the name are looked through, and not all characters that there are.
instance (p : Char → Bool) (name : String) : Decidable (IsNameOf p name) :=
  decidable_of_iff (name.toList ≠ [] ∧ name.toList.all p = true) <| by
    unfold IsNameOf
    rw [List.all_eq_true]

/-- A name begins with one of its characters. -/
theorem IsNameOf.exists_cons {p : Char → Bool} {name : String} (h : IsNameOf p name) :
    ∃ c cs, name.toList = c :: cs ∧ p c = true := by
  obtain ⟨c, cs, hname⟩ := List.exists_cons_of_ne_nil h.1
  exact ⟨c, cs, hname, h.2 c (by rw [hname]; exact List.mem_cons_self)⟩

/-- No blank stands before a name. -/
theorem dropWhile_isBlank_name {name : String} (h : IsNameOf isAttributeNameChar name)
    (rest : List Char) : (name.toList ++ rest).dropWhile isBlank = name.toList ++ rest := by
  obtain ⟨c, cs, hname, hc⟩ := h.exists_cons
  rw [hname, List.cons_append, List.dropWhile_cons_of_neg]
  rw [isBlank_of_isAttributeNameChar hc]
  exact Bool.false_ne_true

/-- A name is taken whole, where what follows cannot go on with it. -/
theorem takeWhile_name {p : Char → Bool} {name : String} (h : IsNameOf p name) {rest : List Char}
    (hrest : ∀ c, rest.head? = some c → p c = false) :
    (name.toList ++ rest).takeWhile p = name.toList ∧ (name.toList ++ rest).dropWhile p = rest := by
  rw [List.takeWhile_append_of_pos h.2, List.dropWhile_append_of_pos h.2]
  cases rest with
  | nil => simp
  | cons c rest => simp [hrest c rfl]

/-- What stands at the front up to the first character of another kind is a name. -/
theorem isNameOf_takeWhile {p : Char → Bool} {cs : List Char} (h : cs.takeWhile p ≠ []) :
    IsNameOf p (String.ofList (cs.takeWhile p)) := by
  unfold IsNameOf
  rw [String.toList_ofList]
  exact ⟨h, fun c hc => List.mem_takeWhile_imp hc⟩

/-! ### Steps of a cursor -/

namespace Cursor

variable {k : Cursor}

theorem skip?_append (mark rest : List Char) (h : k.rest = mark ++ rest) :
    k.skip? mark = some (k.advance mark rest) := by
  unfold skip?
  rw [h, Text.afterChars?_append]
  rfl

theorem skip?_eq_none (mark : List Char) (h : Text.afterChars? mark k.rest = none) :
    k.skip? mark = none := by
  unfold skip?
  rw [h]
  rfl

theorem rest_takeWhile (k : Cursor) (p : Char → Bool) :
    (k.takeWhile p).2.rest = k.rest.dropWhile p := rfl

theorem rest_skipBlanks (k : Cursor) : k.skipBlanks.rest = k.rest.dropWhile isBlank := rfl

/-- Where no blank stands, none is passed over. -/
theorem rest_skipBlanks_of_head (h : ∀ c, k.rest.head? = some c → isBlank c = false) :
    k.skipBlanks.rest = k.rest := by
  rw [rest_skipBlanks]
  cases hrest : k.rest with
  | nil => rfl
  | cons c rest =>
      rw [hrest] at h
      rw [List.dropWhile_cons_of_neg]
      rw [h c rfl]
      exact Bool.false_ne_true

end Cursor

end TemplateCompiler
