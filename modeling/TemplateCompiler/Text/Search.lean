/-
Looking for one text inside another.

`cutChars` finds the first occurrence of a mark and gives what stands before and after
it.  The two parts with the mark between them make up the whole, and the part before
holds no earlier occurrence, because the search goes from left to right.
-/
namespace TemplateCompiler

namespace Text

/-! ### Lists of characters -/

/-- What follows `mark`, if the characters begin with it. -/
def afterChars? : List Char → List Char → Option (List Char)
  | [], cs => some cs
  | _ :: _, [] => none
  | m :: mark, c :: cs => if m = c then afterChars? mark cs else none

/-- The parts before and after the first occurrence of `mark`. -/
def cutChars (mark : List Char) : List Char → Option (List Char × List Char)
  | [] => if mark.isEmpty then some ([], []) else none
  | c :: rest =>
    match afterChars? mark (c :: rest) with
    | some after => some ([], after)
    | none => (cutChars mark rest).map fun (before, after) => (c :: before, after)

/-- The characters with ASCII capitals made small. -/
def lowerAsciiChars (cs : List Char) : List Char := cs.map Char.toLower

/-! ### Strings -/

/-- The text after `start`, if it begins with it. -/
def after? (start s : String) : Option String :=
  (afterChars? start.toList s.toList).map String.ofList

/-- The text begins with `start`. -/
def beginsWith (start s : String) : Bool := start.toList.isPrefixOf s.toList

/-- The text holds `mark` somewhere. -/
def holds (mark s : String) : Bool := (cutChars mark.toList s.toList).isSome

/-- The text with ASCII capitals made small. -/
def lowerAscii (s : String) : String := String.ofList (lowerAsciiChars s.toList)

/-! ### Small laws -/

theorem eq_append_of_afterChars? {mark cs rest : List Char} (h : afterChars? mark cs = some rest) :
    cs = mark ++ rest := by
  induction mark generalizing cs with
  | nil => simpa [afterChars?] using h
  | cons m mark ih =>
    cases cs with
    | nil => cases h
    | cons c cs =>
      simp only [afterChars?] at h
      split at h
      · rename_i hmc
        rw [ih h, hmc]
        rfl
      · cases h

/-- What follows a mark is found after it. -/
@[simp] theorem afterChars?_append (mark rest : List Char) :
    afterChars? mark (mark ++ rest) = some rest := by
  induction mark with
  | nil => rfl
  | cons m mark ih => simpa [afterChars?] using ih

/-- The two parts and the mark between them are the whole text. -/
theorem eq_of_cutChars {mark cs before after : List Char}
    (h : cutChars mark cs = some (before, after)) : cs = before ++ mark ++ after := by
  induction cs generalizing before after with
  | nil =>
    simp only [cutChars] at h
    split at h
    · simp_all
    · cases h
  | cons c rest ih =>
    simp only [cutChars] at h
    split at h
    · rename_i tail htail
      cases h
      simpa using eq_append_of_afterChars? htail
    · obtain ⟨⟨b, a⟩, hb, hba⟩ := Option.map_eq_some_iff.1 h
      cases hba
      simp [ih hb]

end Text

end TemplateCompiler
