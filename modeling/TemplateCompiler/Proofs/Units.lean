/-
Where the unit of a length stands.

Lengths are found by a search from left to right that tries a sign, a whole part and a fraction.
Where their units stand can be told without a search: the unit, then the end of a word, and
before it a digit, or a digit and a point.  What else belongs to the number does not matter,
because a length may begin at the last digit; and no length hides the unit of another one,
because no number holds a letter.

So a style for mini programs, whose unit is as long as that of the design and begins with
another letter, differs from the one it was written from in the first letters of these units
alone, and a style without any of them is left alone on the web, whatever its options are.
-/
import TemplateCompiler.Proofs.Lengths

namespace TemplateCompiler

namespace Length

/-- A number may end where the text does: it ends in a digit, or in a digit and a point. -/
def endsNumber : List Char → Bool
  | [] => false
  | [c] => isWordDigit c
  | [c, '.'] => isWordDigit c
  | _ :: rest => endsNumber rest

/-- The unit of a length stands at this place of the text. -/
structure UnitAt (cs : List Char) (i : Nat) : Prop where
  unit : ['c', 'p', 'x'] <+: cs.drop i
  word : wordEndsBefore (cs.drop (i + 3)) = true
  number : endsNumber (cs.take i) = true

instance (cs : List Char) (i : Nat) : Decidable (UnitAt cs i) :=
  decidable_of_iff (['c', 'p', 'x'] <+: cs.drop i ∧ wordEndsBefore (cs.drop (i + 3)) = true ∧
      endsNumber (cs.take i) = true)
    ⟨fun h => ⟨h.1, h.2.1, h.2.2⟩, fun h => ⟨h.unit, h.word, h.number⟩⟩

variable {cs rest front before number : List Char} {c : Char} {i : Nat}

/-! ### The end of a number -/

theorem endsNumber_cons_iff : endsNumber (c :: before) = true ↔
    isWordDigit c = true ∧ (before = [] ∨ before = ['.']) ∨ endsNumber before = true := by
  match before with
  | [] => simp [endsNumber]
  | [d] =>
      by_cases hd : d = '.'
      · subst hd
        have hpoint : isWordDigit '.' = false := by decide
        simp [endsNumber, hpoint]
      · simp [endsNumber, hd]
  | d :: e :: before => simp [endsNumber]

/-- What stands before the end of a number does not matter. -/
theorem endsNumber_append (front : List Char) (h : endsNumber before = true) :
    endsNumber (front ++ before) = true := by
  induction front with
  | nil => exact h
  | cons c front ih => exact endsNumber_cons_iff.mpr (.inr ih)

theorem IsNumber.endsNumber (h : IsNumber number) : endsNumber number = true := by
  obtain ⟨front, c, hc, rfl | rfl⟩ := h.last
  · exact endsNumber_append front hc
  · exact endsNumber_append front hc

/-! ### The place of a unit -/

theorem UnitAt.getElem? (h : UnitAt cs i) : cs[i]? = some 'c' := by
  obtain ⟨rest, hrest⟩ := h.unit
  rw [← List.head?_drop, ← hrest]
  rfl

theorem UnitAt.lt_length (h : UnitAt cs i) : i < cs.length := by
  obtain ⟨hlt, -⟩ := List.getElem?_eq_some_iff.mp h.getElem?
  exact hlt

theorem not_unitAt_of_getElem? {d : Char} (h : cs[i]? = some d) (hd : d ≠ 'c') : ¬ UnitAt cs i :=
  fun hunit => hd (Option.some.inj (h.symm.trans hunit.getElem?))

/-- No number ends before the beginning of a text. -/
theorem not_unitAt_zero : ¬ UnitAt cs 0 := by
  intro h
  have hnumber := h.number
  rw [List.take_zero] at hnumber
  cases hnumber

/-- A unit that has a number before it has one still if more stands before the number. -/
theorem UnitAt.cons (h : UnitAt cs i) (c : Char) : UnitAt (c :: cs) (i + 1) where
  unit := h.unit
  word := h.word
  number := endsNumber_cons_iff.mpr (.inr h.number)

/-- The unit of a length that ends in the first digit stands right after it or after a point. -/
theorem Ends.unitAt (h : Ends cs) : UnitAt cs 1 ∨ UnitAt cs 2 := by
  cases h with
  | digit hdigit hword => exact .inl ⟨⟨_, rfl⟩, hword, hdigit⟩
  | point hdigit hword => exact .inr ⟨⟨_, rfl⟩, hword, hdigit⟩

/-- The first character can bring one unit about only, which follows it or the point after it. -/
theorem UnitAt.of_cons (h : UnitAt (c :: cs) (i + 1)) :
    UnitAt cs i ∨ Ends (c :: cs) ∧ i < 2 := by
  obtain ⟨rest, hrest⟩ : ['c', 'p', 'x'] <+: cs.drop i := h.unit
  have hcs : cs.take i ++ 'c' :: 'p' :: 'x' :: rest = cs :=
    (congrArg (cs.take i ++ ·) hrest).trans (List.take_append_drop i cs)
  have hword : wordEndsBefore rest = true := by
    have hdrop : (c :: cs).drop (i + 1 + 3) = rest := by
      rw [Nat.add_right_comm, List.drop_succ_cons, ← List.drop_drop, ← hrest]
      rfl
    exact hdrop ▸ h.word
  have hlength : (cs.take i).length = i := List.length_take_of_le (by
    have := h.lt_length
    rw [List.length_cons] at this
    omega)
  rcases endsNumber_cons_iff.mp h.number with ⟨hdigit, hbefore | hbefore⟩ | hnumber
  · rw [hbefore] at hcs hlength
    rw [← hcs]
    exact .inr ⟨.digit hdigit hword, by rw [← hlength]; decide⟩
  · rw [hbefore] at hcs hlength
    rw [← hcs]
    exact .inr ⟨.point hdigit hword, by rw [← hlength]; decide⟩
  · exact .inl ⟨h.unit, h.word, hnumber⟩

theorem unitAt_cons_iff (h : ¬ Ends (c :: cs)) : UnitAt (c :: cs) (i + 1) ↔ UnitAt cs i :=
  ⟨fun hunit => hunit.of_cons.resolve_right fun hends => h hends.1, fun hunit => hunit.cons c⟩

/-- A unit further on does not depend on what stands in front. -/
theorem unitAt_append_iff (hi : 2 ≤ i) :
    UnitAt (front ++ cs) (front.length + i) ↔ UnitAt cs i := by
  induction front with
  | nil => rw [List.nil_append, List.length_nil, Nat.zero_add]
  | cons c front ih =>
      rw [← ih, List.cons_append, List.length_cons, Nat.add_right_comm]
      refine ⟨fun h => h.of_cons.resolve_right fun hends => ?_, fun h => h.cons c⟩
      omega

/-- Behind a length, units stand where they stand in the rest. -/
theorem unitAt_behind_iff :
    UnitAt (number ++ 'c' :: 'p' :: 'x' :: rest) (number.length + (i + 3)) ↔ UnitAt rest i := by
  have hletter : ∀ {c : Char} {cs : List Char}, isWordDigit c = false → ¬ Ends (c :: cs) := by
    intro c cs hc hends
    rw [hends.isWordDigit] at hc
    cases hc
  rw [unitAt_append_iff (by omega), unitAt_cons_iff (hletter (by decide)),
    unitAt_cons_iff (hletter (by decide)), unitAt_cons_iff (hletter (by decide))]

/-- A length has its unit after its number. -/
theorem unitAt_of_isNumber (h : IsNumber number) (hword : wordEndsBefore rest = true) :
    UnitAt (number ++ 'c' :: 'p' :: 'x' :: rest) number.length where
  unit := by
    rw [List.drop_left]
    exact ⟨rest, rfl⟩
  word := by
    rw [← List.drop_drop, List.drop_left]
    exact hword
  number := by
    rw [List.take_left]
    exact h.endsNumber

/-- A text that is clear has no unit of a length anywhere. -/
theorem clear_iff : Clear cs ↔ ∀ i, ¬ UnitAt cs i := by
  induction cs with
  | nil =>
      refine ⟨fun _ i h => ?_, fun _ => trivial⟩
      exact absurd h.lt_length (Nat.not_lt_zero i)
  | cons c cs ih =>
      constructor
      · rintro ⟨hends, hclear⟩ (- | i) hunit
        · exact not_unitAt_zero hunit
        · exact ih.mp hclear i ((unitAt_cons_iff hends).mp hunit)
      · intro h
        refine ⟨fun hends => ?_, ih.mpr fun i hunit => h (i + 1) (hunit.cons c)⟩
        rcases hends.unitAt with hunit | hunit
        · exact h 1 hunit
        · exact h 2 hunit

/-! ### Another unit of the same length -/

/-- The text with the unit of mini programs, place by place. -/
theorem getElem?_replaceAll (cs : List Char) (i : Nat) :
    (replaceAll (· ++ ['r', 'p', 'x']) cs)[i]? = if UnitAt cs i then some 'r' else cs[i]? := by
  fun_induction replaceAll (· ++ ['r', 'p', 'x']) cs generalizing i with
  | case1 => rw [if_neg fun h => Nat.not_lt_zero i h.lt_length]
  | case2 c rest number left hsplit ih =>
      obtain ⟨heq, hnumber, hword⟩ := split?_eq hsplit
      rw [heq, List.append_assoc]
      rcases Nat.lt_or_ge i number.length with hi | hi
      · -- A place in the number, which holds no letter.
        have hmem := hnumber.chars _ (List.getElem_mem hi)
        have hne : number[i] ≠ 'c' := hmem.ne (by decide) (by decide) (by decide)
        have hold : (number ++ 'c' :: 'p' :: 'x' :: left)[i]? = some number[i] := by
          rw [List.getElem?_append_left hi, List.getElem?_eq_getElem hi]
        rw [if_neg (not_unitAt_of_getElem? hold hne), hold, List.getElem?_append_left hi,
          List.getElem?_eq_getElem hi]
      · obtain ⟨k, rfl⟩ := Nat.exists_eq_add_of_le hi
        have hback : ∀ back : List Char, (number ++ back)[number.length + k]? = back[k]? := by
          intro back
          rw [List.getElem?_append_right hi, Nat.add_sub_cancel_left]
        rw [hback]
        match k with
        | 0 => exact (if_pos (unitAt_of_isNumber hnumber hword)).symm
        | 1 | 2 => rw [if_neg (not_unitAt_of_getElem? (hback _) (by decide)), hback]; rfl
        | k + 3 =>
            rw [hback]
            simp only [unitAt_behind_iff]
            exact ih k
  | case3 c rest hnone ih =>
      cases i with
      | zero => rw [if_neg not_unitAt_zero]; rfl
      | succ i =>
          have hends : ¬ Ends (c :: rest) := fun hends => split?_ne_none_of_ends hends hnone
          simp only [unitAt_cons_iff hends, List.getElem?_cons_succ]
          exact ih i

end Length

namespace Style

/-- The unit is replaced by one of the same length. -/
theorem length_withUnit (cs : List Char) : (withUnit ['r', 'p', 'x'] cs).length = cs.length := by
  unfold withUnit
  fun_induction Length.replaceAll (· ++ ['r', 'p', 'x']) cs with
  | case1 => rfl
  | case2 c rest number left hsplit ih =>
      rw [(Length.split?_eq hsplit).1]
      simp only [List.length_append, List.length_cons, List.length_nil, ih]
      omega
  | case3 c rest hnone ih => rw [List.length_cons, List.length_cons, ih]

/-- A style for mini programs is as long as the one it was written from and differs from it exactly
where the unit of a length begins, which now begins with another letter; and it is not changed
again.  On the web a style without a unit of a length is left alone. -/
theorem normalize_units :
    (∀ target : Target, target.isMiniProgram = true →
      ∀ (config : Option StyleConfig) (style : String),
        (normalize target config style).length = style.length ∧
        (∀ i, (normalize target config style).toList[i]? ≠ style.toList[i]? ↔
          Length.UnitAt style.toList i) ∧
        (∀ i, Length.UnitAt style.toList i → style.toList[i]? = some 'c' ∧
          (normalize target config style).toList[i]? = some 'r') ∧
        normalize target config (normalize target config style) = normalize target config style) ∧
    ∀ (config : Option StyleConfig) (style : String),
      (∀ i, ¬ Length.UnitAt style.toList i) → normalize .web config style = style := by
  refine ⟨fun target hmini config style => ?_, fun config style hnone => ?_⟩
  · have hchars : (normalize target config style).toList = withUnit ['r', 'p', 'x'] style.toList := by
      unfold normalize
      rw [String.toList_ofList, normalizeChars_eq hmini]
      rfl
    have hplace : ∀ i, (normalize target config style).toList[i]?
        = if Length.UnitAt style.toList i then some 'r' else style.toList[i]? := fun i =>
      hchars ▸ Length.getElem?_replaceAll style.toList i
    refine ⟨?_, fun i => ?_, fun i hunit => ?_, normalize_normalize hmini config style⟩
    · rw [← String.length_toList, hchars, length_withUnit, String.length_toList]
    · rw [hplace]
      split
      · rename_i hunit
        rw [hunit.getElem?]
        exact iff_of_true (by decide) hunit
      · rename_i hunit
        exact iff_of_false (fun hne => hne rfl) hunit
    · rw [hplace, if_pos hunit]
      exact ⟨hunit.getElem?, rfl⟩
  · have hclear : Length.Clear style.toList := Length.clear_iff.mpr hnone
    show String.ofList (Length.replaceAll _ style.toList) = style
    rw [hclear.replaceAll_eq, String.ofList_toList]

/-- Several points, a sign, digits of another script, lengths side by side, and units that belong to
no length; without these digits nothing is done on the web. -/
theorem normalize_units_points :
    (normalize .wx none "1.2.3cpx-.5cpx 5.cpx;.cpx;cpxcpx;4cpxcpx;٣cpx").length
        = "1.2.3cpx-.5cpx 5.cpx;.cpx;cpxcpx;4cpxcpx;٣cpx".length ∧
      normalize .wx none "1.2.3cpx-.5cpx 5.cpx;.cpx;cpxcpx;4cpxcpx;٣cpx"
        = "1.2.3rpx-.5rpx 5.rpx;.cpx;cpxcpx;4cpxcpx;٣rpx" ∧
      normalize .web none "4 cpx;.cpx;4cpxcpx" = "4 cpx;.cpx;4cpxcpx" :=
  ⟨(normalize_units.1 .wx rfl none _).1, by decide +kernel,
    normalize_units.2 none _ fun i hunit =>
      (by decide +kernel : ∀ i < 18, ¬ Length.UnitAt "4 cpx;.cpx;4cpxcpx".toList i) i hunit.lt_length
        hunit⟩

end Style

end TemplateCompiler
