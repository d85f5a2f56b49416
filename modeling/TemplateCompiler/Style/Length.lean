/-
Lengths in the unit of the design, `cpx`.

A length is an optional minus sign, digits with at most one point among them and at least
one digit, the unit, and then the end of a word.  Digits of every script count, as Unicode 16.0 has them.  Lengths
are looked for from left to right and do not overlap; where one could begin at several
characters, the leftmost begins it.  A run of digits and points that is not followed by
the unit at its end may therefore still end in a length.
-/
import TemplateCompiler.Text.Word

namespace TemplateCompiler

namespace Length

/-- The digits at the front, and what follows them. -/
def splitDigits (cs : List Char) : List Char × List Char :=
  (cs.takeWhile isWordDigit, cs.dropWhile isWordDigit)

/-- A number without a sign at the front, and what follows it. -/
def splitUnsigned? (cs : List Char) : Option (List Char × List Char) :=
  match splitDigits cs with
  | ([], '.' :: rest) =>
    match splitDigits rest with
    | ([], _) => none
    | (fraction, rest) => some ('.' :: fraction, rest)
  | ([], _) => none
  | (whole, '.' :: rest) =>
    let fraction := splitDigits rest
    some (whole ++ '.' :: fraction.1, fraction.2)
  | (whole, rest) => some (whole, rest)

/-- A number at the front, and what follows it. -/
def splitNumber? : List Char → Option (List Char × List Char)
  | '-' :: cs => (splitUnsigned? cs).map fun (number, rest) => ('-' :: number, rest)
  | cs => splitUnsigned? cs

/-- The unit at the front, and what follows it. -/
def splitUnit? : List Char → Option (List Char)
  | 'c' :: 'p' :: 'x' :: rest => if wordEndsBefore rest then some rest else none
  | _ => none

/-- The number of a length at the front, and what follows the length. -/
def split? (cs : List Char) : Option (List Char × List Char) :=
  match splitNumber? cs with
  | some (number, rest) => (splitUnit? rest).map fun rest => (number, rest)
  | none => none

theorem length_splitDigits (cs : List Char) :
    (splitDigits cs).1.length + (splitDigits cs).2.length = cs.length := by
  simp only [splitDigits]
  rw [← List.length_append, List.takeWhile_append_dropWhile]

theorem length_splitUnsigned? {cs number rest : List Char}
    (h : splitUnsigned? cs = some (number, rest)) : number.length + rest.length = cs.length := by
  have hcs := length_splitDigits cs
  unfold splitUnsigned? at h
  split at h
  · rename_i left heq
    have hleft := length_splitDigits left
    rw [heq] at hcs
    split at h
    · cases h
    · rename_i hsplit
      cases h
      rw [hsplit] at hleft
      simp only [List.length_cons, List.length_nil] at *
      omega
  · cases h
  · rename_i left _ heq
    have hleft := length_splitDigits left
    rw [heq] at hcs
    simp only [Option.some.injEq, Prod.mk.injEq] at h
    obtain ⟨rfl, rfl⟩ := h
    simp only [List.length_append, List.length_cons] at *
    omega
  · rename_i heq
    rw [heq] at hcs
    cases h
    exact hcs

theorem length_splitNumber? {cs number rest : List Char}
    (h : splitNumber? cs = some (number, rest)) : number.length + rest.length = cs.length := by
  unfold splitNumber? at h
  split at h
  · obtain ⟨⟨unsigned, left⟩, hleft, heq⟩ := Option.map_eq_some_iff.1 h
    cases heq
    have := length_splitUnsigned? hleft
    simp only [List.length_cons]
    omega
  · exact length_splitUnsigned? h

/-- A length takes at least the characters of its unit. -/
theorem length_split?_lt {cs number rest : List Char} (h : split? cs = some (number, rest)) :
    rest.length < cs.length := by
  unfold split? at h
  split at h
  · rename_i number' left hnumber
    obtain ⟨rest', hunit, heq⟩ := Option.map_eq_some_iff.1 h
    cases heq
    have := length_splitNumber? hnumber
    unfold splitUnit? at hunit
    split at hunit
    · split at hunit
      · cases hunit
        simp only [List.length_cons] at this
        omega
      · cases hunit
    · cases hunit
  · cases h

/-- Writes each length as `f` says, given its number; all else stays. -/
def replaceAll (f : List Char → List Char) (cs : List Char) : List Char :=
  match cs with
  | [] => []
  | c :: rest =>
    match _h : split? (c :: rest) with
    | some (number, left) => f number ++ replaceAll f left
    | none => c :: replaceAll f rest
termination_by cs.length
decreasing_by
  · exact length_split?_lt _h
  · simp

end Length

end TemplateCompiler
