/-
Colours are written once.

A word that is a colour becomes six hexadecimal digits with small letters, and such a word is
left alone.  Colours are made of letters, digits and the hash, before and after, so a word
with any other character is none.
-/
import TemplateCompiler.Style.Color

namespace TemplateCompiler

namespace Color

variable {word : List Char}

/-! ### The characters of colours -/

theorem mem_of_isHexDigit {c : Char} (h : isHexDigit c = true) :
    c ∈ "0123456789abcdefABCDEF".toList := by
  delta isHexDigit Char.isDigit at h
  simp only [Bool.or_eq_true, Bool.and_eq_true, decide_eq_true_eq, Char.le_def,
    UInt32.le_iff_toNat_le, ge_iff_le] at h
  change ((48 ≤ c.toNat ∧ c.toNat ≤ 57) ∨ (97 ≤ c.toNat ∧ c.toNat ≤ 102)) ∨
    (65 ≤ c.toNat ∧ c.toNat ≤ 70) at h
  have hall : ∀ n < 103, ((48 ≤ n ∧ n ≤ 57) ∨ (97 ≤ n ∧ n ≤ 102)) ∨ (65 ≤ n ∧ n ≤ 70) →
      Char.ofNat n ∈ "0123456789abcdefABCDEF".toList := by decide
  rw [← Char.ofNat_toNat c]
  exact hall c.toNat (by omega) h

/-- A colour that is found has its name in the table. -/
theorem mem_named_of_lookup {name hex : String} (h : named.lookup name = some hex) :
    (name, hex) ∈ named := by
  obtain ⟨front, back, hsplit, -⟩ := List.lookup_eq_some_iff.mp h
  rw [hsplit]
  exact List.mem_append_right front List.mem_cons_self

/-- A word with another character than letters, digits and the hash is no colour. -/
theorem normalize_eq_self {c : Char} (hc : c ∈ word)
    (halphanum : c.isAlphanum = false) (hhash : c ≠ '#') : normalize word = word := by
  unfold normalize
  split
  · rename_i digits
    have hdigits : digits.all isHexDigit = false := by
      rw [List.all_eq_false]
      refine ⟨c, (List.mem_cons.mp hc).resolve_left hhash, fun hdigit => ?_⟩
      have hall : "0123456789abcdefABCDEF".toList.all Char.isAlphanum = true := by decide
      rw [List.all_eq_true.mp hall c (mem_of_isHexDigit hdigit)] at halphanum
      cases halphanum
    rw [hdigits]
    rfl
  · have hlower : c ∈ (String.ofList (Text.lowerAsciiChars word)).toList := by
      rw [String.toList_ofList]
      have hupper : c.isUpper = false :=
        (Bool.or_eq_false_iff.mp (Bool.or_eq_false_iff.mp halphanum).1).1
      unfold Char.isUpper at hupper
      exact List.mem_map.mpr ⟨c, hc, dif_neg (by simpa using hupper)⟩
    split
    · rename_i hex hfound
      have hnames : ∀ entry ∈ named, entry.1.toList.all Char.isAlphanum = true := by
        decide +kernel
      rw [List.all_eq_true.mp (hnames _ (mem_named_of_lookup hfound)) c hlower] at halphanum
      cases halphanum
    · rfl

/-! ### Colours that have been written -/

/-- Six hexadecimal digits with small letters, after a hash. -/
def IsHex (word : List Char) : Prop :=
  ∃ digits, word = '#' :: digits ∧ digits.length = 6 ∧
    ∀ c ∈ digits, isHexDigit c = true ∧ c.toLower = c

theorem isHexDigit_toLower {c : Char} (h : isHexDigit c = true) :
    isHexDigit c.toLower = true ∧ c.toLower.toLower = c.toLower := by
  have hall : "0123456789abcdefABCDEF".toList.all
      (fun d => isHexDigit d.toLower && d.toLower.toLower == d.toLower) = true := by decide
  have hc := List.all_eq_true.mp hall c (mem_of_isHexDigit h)
  rw [Bool.and_eq_true, beq_iff_eq] at hc
  exact hc

theorem isHex_lowerAscii {digits : List Char} (h : digits.all isHexDigit = true)
    (hlength : digits.length = 6) : IsHex ('#' :: Text.lowerAsciiChars digits) := by
  refine ⟨_, rfl, by rw [Text.lowerAsciiChars, List.length_map, hlength], fun c hc => ?_⟩
  obtain ⟨d, hd, rfl⟩ := List.mem_map.mp hc
  exact isHexDigit_toLower (List.all_eq_true.mp h d hd)

/-- Three digits are written twice each. -/
theorem isHex_short {digits : List Char} (h : digits.all isHexDigit = true)
    (hlength : digits.length = 3) :
    IsHex ('#' :: Text.lowerAsciiChars (digits.flatMap fun c => [c, c])) := by
  refine isHex_lowerAscii (List.all_eq_true.mpr fun c hc => ?_) ?_
  · obtain ⟨d, hd, hc⟩ := List.mem_flatMap.mp hc
    have heq : c = d := by simpa using hc
    exact heq ▸ List.all_eq_true.mp h d hd
  · have hdouble : (digits.map fun c => [c, c].length) = List.replicate digits.length 2 :=
      show digits.map (fun _ => 2) = _ from List.map_const'
    rw [List.length_flatMap, hdouble, hlength]
    rfl

/-- The colours of the table are written so. -/
theorem isHex_of_mem_named {entry : String × String} (h : entry ∈ named) :
    IsHex entry.2.toList := by
  have hnamed : ∀ entry ∈ named, entry.2.toList = '#' :: entry.2.toList.tail ∧
      entry.2.toList.tail.length = 6 ∧
      entry.2.toList.tail.all (fun c => isHexDigit c && c.toLower == c) = true := by
    decide +kernel
  obtain ⟨hhex, hlength, hdigits⟩ := hnamed entry h
  refine ⟨_, hhex, hlength, fun c hc => ?_⟩
  have hc' := List.all_eq_true.mp hdigits c hc
  rw [Bool.and_eq_true, beq_iff_eq] at hc'
  exact hc'

/-- A word stays, or it is written as a colour. -/
theorem normalize_cases (word : List Char) : normalize word = word ∨ IsHex (normalize word) := by
  unfold normalize
  split
  · split
    · rename_i hshort
      obtain ⟨hdigits, hlength⟩ := Bool.and_eq_true_iff.mp hshort
      exact .inr (isHex_short hdigits (beq_iff_eq.mp hlength))
    · split
      · rename_i hlong
        obtain ⟨hdigits, hlength⟩ := Bool.and_eq_true_iff.mp hlong
        exact .inr (isHex_lowerAscii hdigits (beq_iff_eq.mp hlength))
      · exact .inl rfl
  · split
    · rename_i hex hfound
      exact .inr (isHex_of_mem_named (mem_named_of_lookup hfound))
    · exact .inl rfl

/-- A colour that has been written stays. -/
theorem IsHex.normalize_eq (h : IsHex word) : normalize word = word := by
  obtain ⟨digits, rfl, hlength, hdigits⟩ := h
  have hall : digits.all isHexDigit = true := List.all_eq_true.mpr fun c hc => (hdigits c hc).1
  have hlower : Text.lowerAsciiChars ('#' :: digits) = '#' :: digits := by
    unfold Text.lowerAsciiChars
    rw [List.map_cons, List.map_congr_left fun c hc => (hdigits c hc).2, List.map_id']
    rfl
  show (if digits.all isHexDigit && digits.length == 3 then _
    else if digits.all isHexDigit && digits.length == 6 then Text.lowerAsciiChars ('#' :: digits)
    else _) = _
  rw [hall, hlength, hlower]
  rfl

theorem normalize_normalize (word : List Char) : normalize (normalize word) = normalize word := by
  rcases normalize_cases word with h | h
  · rw [h, h]
  · exact h.normalize_eq

/-- The characters of a colour that has been written. -/
theorem IsHex.mem (h : IsHex word) {c : Char} (hc : c ∈ word) :
    c ∈ "#0123456789abcdefABCDEF".toList := by
  obtain ⟨digits, rfl, -, hdigits⟩ := h
  rcases List.mem_cons.mp hc with rfl | hc
  · exact List.mem_cons_self
  · exact List.mem_cons_of_mem _ (mem_of_isHexDigit (hdigits c hc).1)

end Color

end TemplateCompiler
