/-
Texts that close what they open.

A scan that passes over such a text stands afterwards where it stood before, and it does not
look at what is around the text: where one more bracket is open it does the same, one bracket
deeper.  So nothing in the text is at the top if a bracket is open before it, whatever the
text holds, and together with the brackets around it the text is passed over as a whole.
-/
import TemplateCompiler.Proofs.Pieces

namespace TemplateCompiler

namespace Nesting

variable {q : Quoting} {p : Nesting → Char → Bool} {s : Nesting} {cs ds : List Char} {c o : Char}
variable {separator : Char}

theorem scan_append (q : Quoting) (s : Nesting) (cs ds : List Char) :
    scan q s (cs ++ ds) = scan q (scan q s cs) ds :=
  List.foldl_append ..

/-! ### What holds all through a scan -/

/-- `p` holds of where the scan stands before each character, and of the character. -/
def throughout (q : Quoting) (p : Nesting → Char → Bool) (s : Nesting) : List Char → Bool
  | [] => true
  | c :: rest => p s c && throughout q p (s.step q c) rest

theorem throughout_cons_iff : throughout q p s (c :: cs) = true ↔
    p s c = true ∧ throughout q p (s.step q c) cs = true :=
  Bool.and_eq_true_iff

theorem throughout_append_iff : throughout q p s (cs ++ ds) = true ↔
    throughout q p s cs = true ∧ throughout q p (scan q s cs) ds = true := by
  induction cs generalizing s with
  | nil => exact (and_iff_right rfl).symm
  | cons c cs ih =>
      rw [List.cons_append, throughout_cons_iff, throughout_cons_iff, ih, and_assoc]
      rfl

/-- The separator nowhere stands at the top. -/
def lacksTop (q : Quoting) (separator : Char) (cs : List Char) : Bool :=
  throughout q (fun s c => !(c == separator && s.atTop q c)) .outside cs

theorem unbroken_of_lacksTop (h : lacksTop q separator cs = true) :
    Unbroken q separator .outside cs := by
  have hfrom : ∀ {cs : List Char} {s : Nesting},
      throughout q (fun s c => !(c == separator && s.atTop q c)) s cs = true →
        Unbroken q separator s cs := by
    intro cs
    induction cs with
    | nil => exact fun _ => unbroken_nil
    | cons c cs ih =>
        intro s h
        obtain ⟨hhere, hrest⟩ := throughout_cons_iff.mp h
        exact unbroken_cons_iff.mpr ⟨(Bool.not_eq_true' _).mp hhere, ih hrest⟩
  exact hfrom h

/-! ### One bracket deeper -/

/-- A bracket is closed here that has not been opened. -/
def closesUnopened (q : Quoting) (s : Nesting) (c : Char) : Bool :=
  s.quote.isNone && s.depth == 0 && !q.marks.contains c && isClosing c

/-- The same place with one more bracket open. -/
def deeper (s : Nesting) : Nesting := { s with depth := s.depth + 1 }

theorem step_deeper (h : closesUnopened q s c = false) :
    s.deeper.step q c = (s.step q c).deeper := by
  obtain ⟨depth, quote, escaped⟩ := s
  unfold step deeper
  cases quote with
  | some mark =>
      dsimp only
      split
      · rfl
      · split
        · rfl
        · split <;> rfl
  | none =>
      dsimp only
      split
      · rfl
      · rename_i hmark
        split
        · rfl
        · split
          · rename_i hclose
            -- The bracket that is closed was opened in the text.
            have hdepth : depth ≠ 0 := by
              rintro rfl
              simp [closesUnopened, hclose] at h
              exact hmark (by simpa using h)
            exact congrArg (fun depth => (⟨depth, none, escaped⟩ : Nesting))
              (by omega : depth + 1 - 1 = depth - 1 + 1)
          · rfl

theorem atTop_deeper (s : Nesting) (c : Char) : s.deeper.atTop q c = false := by
  have hdepth : (s.depth + 1 == 0) = false := rfl
  unfold atTop deeper
  dsimp only
  rw [hdepth, Bool.and_false]
  rfl

/-- Nothing is at the top one bracket deeper, and the scan ends one bracket deeper. -/
theorem scan_deeper (h : throughout q (fun s c => !closesUnopened q s c) s cs = true) :
    scan q s.deeper cs = (scan q s cs).deeper ∧
      throughout q (fun s c => !s.atTop q c) s.deeper cs = true := by
  induction cs generalizing s with
  | nil => exact ⟨rfl, rfl⟩
  | cons c cs ih =>
      obtain ⟨hhere, hrest⟩ := throughout_cons_iff.mp h
      obtain ⟨hscan, hdeep⟩ := ih hrest
      have hstep := step_deeper ((Bool.not_eq_true' _).mp hhere)
      refine ⟨?_, throughout_cons_iff.mpr ⟨by rw [atTop_deeper]; rfl, hstep ▸ hdeep⟩⟩
      show scan q (s.deeper.step q c) cs = _
      rw [hstep, hscan]
      rfl

/-! ### Closed texts -/

/-- The text closes no bracket that it has not opened, and leaves no bracket and no literal open. -/
structure Closed (q : Quoting) (cs : List Char) : Prop where
  opened : throughout q (fun s c => !closesUnopened q s c) .outside cs = true
  depth : (scan q .outside cs).depth = 0
  quote : (scan q .outside cs).quote = none

instance (q : Quoting) (cs : List Char) : Decidable (Closed q cs) :=
  decidable_of_iff (throughout q (fun s c => !closesUnopened q s c) .outside cs = true ∧
      (scan q .outside cs).depth = 0 ∧ (scan q .outside cs).quote = none)
    ⟨fun h => ⟨h.1, h.2.1, h.2.2⟩, fun h => ⟨h.opened, h.depth, h.quote⟩⟩

/-- A character is protected inside literals only. -/
theorem escaped_scan (q : Quoting) (cs : List Char) (hs : s.quote = none → s.escaped = false) :
    (scan q s cs).quote = none → (scan q s cs).escaped = false := by
  induction cs generalizing s with
  | nil => exact hs
  | cons c cs ih =>
      refine ih fun hquote => ?_
      obtain ⟨depth, quote, escaped⟩ := s
      cases quote with
      | none =>
          have hfalse : escaped = false := hs rfl
          subst hfalse
          unfold step
          dsimp only
          split
          · rfl
          · split
            · rfl
            · split <;> rfl
      | some mark =>
          cases escaped with
          | true => cases hquote
          | false =>
              unfold step at hquote ⊢
              dsimp only at hquote ⊢
              rw [if_neg Bool.false_ne_true] at hquote ⊢
              split at hquote
              · cases hquote
              · rename_i hplain
                rw [if_neg hplain]
                split <;> rfl

theorem Closed.scan_eq (h : Closed q cs) : scan q .outside cs = .outside := by
  have hescaped := escaped_scan q cs (fun _ => rfl) h.quote
  have hdepth := h.depth
  have hquote := h.quote
  revert hescaped hdepth hquote
  cases scan q .outside cs with
  | mk depth quote escaped =>
      rintro rfl rfl rfl
      rfl

theorem Closed.append (hcs : Closed q cs) (hds : Closed q ds) : Closed q (cs ++ ds) := by
  have hscan : scan q .outside (cs ++ ds) = scan q .outside ds := by
    rw [scan_append, hcs.scan_eq]
  exact ⟨throughout_append_iff.mpr ⟨hcs.opened, hcs.scan_eq.symm ▸ hds.opened⟩, hscan ▸ hds.depth,
    hscan ▸ hds.quote⟩

/-- Closed texts with separators between them make up a closed text. -/
theorem closed_intercalate (hseparator : Closed q [separator]) {pieces : List (List Char)}
    (h : ∀ piece ∈ pieces, Closed q piece) : Closed q ([separator].intercalate pieces) := by
  induction pieces with
  | nil => exact ⟨rfl, rfl, rfl⟩
  | cons piece pieces ih =>
      have hpiece := h piece List.mem_cons_self
      have hrest := ih fun other hother => h other (List.mem_cons_of_mem piece hother)
      cases pieces with
      | nil =>
          rw [List.intercalate_singleton]
          exact hpiece
      | cons next pieces =>
          rw [List.intercalate_cons_cons]
          exact (hpiece.append hseparator).append hrest

/-- A closed text between brackets is passed over as a whole. -/
theorem Closed.enclosed (h : Closed q cs) (ho : isOpening o = true) (hc : isClosing c = true)
    (hmarks : q.marks.contains o = false ∧ q.marks.contains c = false) :
    scan q .outside (o :: cs ++ [c]) = .outside ∧
      throughout q (fun s c => !s.atTop q c) .outside (o :: cs ++ [c]) = true := by
  have hclose : isOpening c = false := by
    unfold isClosing at hc
    rw [Bool.or_eq_true, Bool.or_eq_true, beq_iff_eq, beq_iff_eq, beq_iff_eq] at hc
    rcases hc with (rfl | rfl) | rfl <;> rfl
  have hopen : outside.step q o = outside.deeper := by
    unfold step
    dsimp only [outside]
    rw [hmarks.1, ho]
    rfl
  have hlast : outside.deeper.step q c = outside := by
    unfold step deeper
    dsimp only [outside]
    rw [hmarks.2, hclose, hc]
    rfl
  obtain ⟨hscan, hdeep⟩ := scan_deeper h.opened
  rw [h.scan_eq] at hscan
  constructor
  · show scan q (outside.step q o) (cs ++ [c]) = outside
    rw [hopen, scan_append, hscan]
    exact hlast
  · rw [List.cons_append, throughout_cons_iff, hopen, throughout_append_iff, hscan]
    refine ⟨?_, hdeep, throughout_cons_iff.mpr ⟨by rw [atTop_deeper]; rfl, rfl⟩⟩
    unfold atTop
    rw [ho]
    simp

end Nesting

end TemplateCompiler
