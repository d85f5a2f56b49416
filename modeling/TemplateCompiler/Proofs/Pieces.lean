/-
The pieces of a text between separators at the top.

A piece has no separator at the top, and each piece but the last ends where a scan begins,
because a separator at the top follows it.  Texts with these two properties are the pieces of
what they make up when separators are put between them, so what is said of pieces can be
said of any such list.

A scan without escapes looks only at the marks of literals, at brackets and at separators.
What keeps these characters in their order, whatever it does to all others, keeps what pieces
are: pieces can be rewritten one by one, and left out, without being cut in another way.
-/
import TemplateCompiler.Text.Nesting

namespace TemplateCompiler

namespace Nesting

variable {q : Quoting} {separator : Char} {s : Nesting} {cs front piece : List Char} {c : Char}
variable {pieces : List (List Char)}

/-! ### Texts without a separator at the top -/

theorem splitTop_cons (q : Quoting) (separator : Char) (s : Nesting) (c : Char) (cs : List Char) :
    splitTop q separator s (c :: cs)
      = if c == separator && s.atTop q c then [] :: splitTop q separator (s.step q c) cs
        else (splitTop q separator (s.step q c) cs).modifyHead (c :: ·) := rfl

/-- Scanned from `s`, the text has no separator at the top. -/
def Unbroken (q : Quoting) (separator : Char) (s : Nesting) (cs : List Char) : Prop :=
  splitTop q separator s cs = [cs]

theorem unbroken_nil : Unbroken q separator s [] := rfl

theorem unbroken_cons_iff : Unbroken q separator s (c :: cs) ↔
    (c == separator && s.atTop q c) = false ∧ Unbroken q separator (s.step q c) cs := by
  unfold Unbroken
  rw [splitTop_cons]
  cases hhere : c == separator && s.atTop q c with
  | true => simp
  | false =>
      cases splitTop q separator (s.step q c) cs with
      | nil => simp
      | cons first others => simp

/-- A text without a separator at the top belongs to the first piece. -/
theorem Unbroken.splitTop_append (h : Unbroken q separator s front) (rest : List Char) :
    splitTop q separator s (front ++ rest)
      = (splitTop q separator (scan q s front) rest).modifyHead (front ++ ·) := by
  induction front generalizing s with
  | nil =>
      show splitTop q separator s rest = (splitTop q separator s rest).modifyHead id
      rw [List.modifyHead_id]
      rfl
  | cons c front ih =>
      obtain ⟨htop, hfront⟩ := unbroken_cons_iff.mp h
      rw [List.cons_append, splitTop_cons, htop, ih hfront, List.modifyHead_modifyHead]
      rfl

/-- Characters that leave the scan where it is, none of them a separator at the top. -/
theorem unbroken_of_forall
    (h : ∀ c ∈ front, s.step q c = s ∧ (c == separator && s.atTop q c) = false) :
    Unbroken q separator s front ∧ scan q s front = s := by
  induction front with
  | nil => exact ⟨unbroken_nil, rfl⟩
  | cons c front ih =>
      obtain ⟨hstep, htop⟩ := h c List.mem_cons_self
      obtain ⟨hunbroken, hscan⟩ := ih fun d hd => h d (List.mem_cons_of_mem c hd)
      refine ⟨unbroken_cons_iff.mpr ⟨htop, hstep.symm ▸ hunbroken⟩, ?_⟩
      show scan q (s.step q c) front = s
      rw [hstep, hscan]

/-- A text is cut at a separator where the scan stands as it began. -/
theorem splitTop_append_separator (htop : outside.atTop q separator = true)
    (hscan : scan q s front = .outside) (back : List Char) :
    splitTop q separator s (front ++ separator :: back)
      = splitTop q separator s front ++ splitTop q separator .outside back := by
  induction front generalizing s with
  | nil =>
      have hs : s = .outside := hscan
      rw [hs, List.nil_append, splitTop_cons, step_of_atTop htop, beq_self_eq_true, htop]
      rfl
  | cons c front ih =>
      have hne := splitTop_ne_nil q separator (s.step q c) front
      rw [List.cons_append, splitTop_cons, splitTop_cons, ih hscan]
      split
      · rfl
      · revert hne
        cases splitTop q separator (s.step q c) front with
        | nil => exact fun hne => absurd rfl hne
        | cons first others => exact fun _ => rfl

/-! ### Scans without escapes -/

/-- A character that a scan looks at. -/
def significant (q : Quoting) (separator c : Char) : Bool :=
  q.marks.contains c || isOpening c || isClosing c || c == separator

/-- Nothing is protected, and an open literal was opened by a mark. -/
structure Plain (q : Quoting) (s : Nesting) : Prop where
  escaped : s.escaped = false
  quote : ∀ mark, s.quote = some mark → q.marks.contains mark = true

theorem plain_outside : Plain q outside := ⟨rfl, nofun⟩

variable (hq : q.escapes = false)
include hq

theorem Plain.step (h : Plain q s) (c : Char) : Plain q (s.step q c) := by
  unfold Nesting.step
  cases hquote : s.quote with
  | none =>
      dsimp only
      split
      · rename_i hmark
        exact ⟨h.escaped, fun mark heq => Option.some.inj heq ▸ hmark⟩
      · split
        · exact ⟨h.escaped, nofun⟩
        · split
          · exact ⟨h.escaped, nofun⟩
          · exact h
  | some mark =>
      dsimp only
      rw [h.escaped, hq, if_neg Bool.false_ne_true, Bool.false_and, if_neg Bool.false_ne_true]
      split
      · exact ⟨rfl, nofun⟩
      · exact h

theorem plain_scan (h : Plain q s) (cs : List Char) : Plain q (scan q s cs) := by
  induction cs generalizing s with
  | nil => exact h
  | cons c cs ih => exact ih (h.step hq c)

omit hq in
/-- Outside literals and brackets the scan stands as it began. -/
theorem Plain.eq_outside (h : Plain q s) (hquote : s.quote = none) (hdepth : s.depth = 0) :
    s = .outside := by
  obtain ⟨depth, quote, escaped⟩ := s
  cases hquote
  cases hdepth
  cases h.escaped
  rfl

omit hq in
theorem Plain.eq_outside_of_atTop (h : Plain q s) (htop : s.atTop q c = true) : s = .outside := by
  simp only [atTop, Bool.and_eq_true, beq_iff_eq, Option.isNone_iff_eq_none] at htop
  obtain ⟨⟨⟨⟨hquote, hdepth⟩, -⟩, -⟩, -⟩ := htop
  exact h.eq_outside hquote hdepth

/-- Other characters leave the scan where it is. -/
theorem Plain.step_eq (h : Plain q s) (hc : significant q separator c = false) :
    s.step q c = s := by
  simp only [significant, Bool.or_eq_false_iff] at hc
  obtain ⟨⟨⟨hmarks, hopen⟩, hclose⟩, -⟩ := hc
  unfold Nesting.step
  cases hquote : s.quote with
  | none =>
      dsimp only
      rw [hmarks, hopen, hclose]
      rfl
  | some mark =>
      have hne : (c == mark) = false := by
        rw [beq_eq_false_iff_ne]
        rintro rfl
        rw [h.quote _ hquote] at hmarks
        cases hmarks
      dsimp only
      rw [h.escaped, hq, hne]
      rfl

theorem Plain.scan_filter (h : Plain q s) (cs : List Char) :
    scan q s (cs.filter (significant q separator)) = scan q s cs := by
  induction cs generalizing s with
  | nil => rfl
  | cons c cs ih =>
      cases hc : significant q separator c with
      | true =>
          rw [List.filter_cons_of_pos hc]
          exact ih (h.step hq c)
      | false =>
          rw [List.filter_cons_of_neg (by simp [hc])]
          show _ = scan q (s.step q c) cs
          rw [h.step_eq hq hc]
          exact ih h

theorem Plain.unbroken_filter (h : Plain q s) (cs : List Char) :
    Unbroken q separator s (cs.filter (significant q separator)) ↔ Unbroken q separator s cs := by
  induction cs generalizing s with
  | nil => exact Iff.rfl
  | cons c cs ih =>
      cases hc : significant q separator c with
      | true =>
          rw [List.filter_cons_of_pos hc, unbroken_cons_iff, unbroken_cons_iff, ih (h.step hq c)]
      | false =>
          have hseparator : (c == separator) = false := (Bool.or_eq_false_iff.mp hc).2
          rw [List.filter_cons_of_neg (by simp [hc]), unbroken_cons_iff, h.step_eq hq hc, hseparator,
            ih h, Bool.false_and]
          exact (and_iff_right rfl).symm

/-! ### Pieces -/

omit hq in
/-- Texts that are pieces of one text: none has a separator at the top, and a scan of any but the
last ends where it began. -/
structure Pieces (q : Quoting) (separator : Char) (pieces : List (List Char)) : Prop where
  unbroken : ∀ piece ∈ pieces, Unbroken q separator .outside piece
  closed : pieces.Pairwise fun piece _ => scan q .outside piece = .outside

omit hq in
/-- Some of the pieces of a text are pieces, too. -/
theorem Pieces.filter (h : Pieces q separator pieces) (p : List Char → Bool) :
    Pieces q separator (pieces.filter p) where
  unbroken piece hpiece := h.unbroken piece (List.mem_filter.mp hpiece).1
  closed := h.closed.filter p

/-- So are pieces that are rewritten one by one, if all the characters stay that a scan looks
at. -/
theorem Pieces.map (h : Pieces q separator pieces) {f : List Char → List Char}
    (hf : ∀ piece ∈ pieces, (f piece).filter (significant q separator)
      = piece.filter (significant q separator)) : Pieces q separator (pieces.map f) where
  unbroken piece hpiece := by
    obtain ⟨old, hold, rfl⟩ := List.mem_map.mp hpiece
    rw [← plain_outside.unbroken_filter hq, hf old hold, plain_outside.unbroken_filter hq]
    exact h.unbroken old hold
  closed := by
    rw [List.pairwise_map]
    refine h.closed.imp_of_mem fun {piece other} hpiece _ hscan => ?_
    have hrewritten : scan q .outside ((f piece).filter (significant q separator))
        = scan q .outside (f piece) := plain_outside.scan_filter hq _
    rw [← hrewritten, hf piece hpiece, plain_outside.scan_filter hq]
    exact hscan

theorem Plain.pieces_of_splitTop (h : Plain q s) {first : List Char} {others : List (List Char)}
    (hcs : splitTop q separator s cs = first :: others) :
    Unbroken q separator s first ∧ (others ≠ [] → scan q s first = .outside) ∧
      Pieces q separator others := by
  induction cs generalizing s first others with
  | nil =>
      cases hcs
      exact ⟨unbroken_nil, fun hne => absurd rfl hne, nofun, List.Pairwise.nil⟩
  | cons c cs ih =>
      rw [splitTop_cons] at hcs
      obtain ⟨second, rest, hrest⟩ :=
        List.exists_cons_of_ne_nil (splitTop_ne_nil q separator (s.step q c) cs)
      obtain ⟨hunbroken, hclosed, hpieces⟩ := ih (h.step hq c) hrest
      rw [hrest] at hcs
      split at hcs
      · -- A new piece begins, so the scan stands as it began, before the separator and after it.
        rename_i hhere
        cases hcs
        have htop := (Bool.and_eq_true_iff.mp hhere).2
        have hs : s = .outside := h.eq_outside_of_atTop htop
        rw [step_of_atTop htop, hs] at hunbroken hclosed
        refine ⟨unbroken_nil, fun _ => hs, ?_, ?_⟩
        · intro piece hpiece
          rcases List.mem_cons.mp hpiece with rfl | hpiece
          · exact hunbroken
          · exact hpieces.unbroken piece hpiece
        · exact List.pairwise_cons.mpr
            ⟨fun other hother => hclosed (List.ne_nil_of_mem hother), hpieces.closed⟩
      · rename_i hhere
        cases hcs
        exact ⟨unbroken_cons_iff.mpr ⟨Bool.eq_false_iff.mpr hhere, hunbroken⟩, hclosed, hpieces⟩

/-- What a text is cut into are pieces. -/
theorem pieces_splitTop (cs : List Char) :
    Pieces q separator (splitTop q separator .outside cs) := by
  obtain ⟨first, others, hcs⟩ :=
    List.exists_cons_of_ne_nil (splitTop_ne_nil q separator .outside cs)
  obtain ⟨hunbroken, hclosed, hpieces⟩ := plain_outside.pieces_of_splitTop hq hcs
  rw [hcs]
  refine ⟨fun piece hpiece => ?_, List.pairwise_cons.mpr
    ⟨fun other hother => hclosed (List.ne_nil_of_mem hother), hpieces.closed⟩⟩
  rcases List.mem_cons.mp hpiece with rfl | hpiece
  · exact hunbroken
  · exact hpieces.unbroken piece hpiece

omit hq in
/-- Pieces with separators between them are cut into the same pieces. -/
theorem Pieces.splitTop_intercalate (h : Pieces q separator pieces)
    (htop : outside.atTop q separator = true) (hne : pieces ≠ []) :
    splitTop q separator .outside ([separator].intercalate pieces) = pieces := by
  induction pieces with
  | nil => exact absurd rfl hne
  | cons piece pieces ih =>
      have hunbroken := h.unbroken piece List.mem_cons_self
      cases pieces with
      | nil =>
          rw [List.intercalate_singleton]
          exact hunbroken
      | cons next pieces =>
          obtain ⟨hclosed, hrest⟩ := List.pairwise_cons.mp h.closed
          have hpieces : Pieces q separator (next :: pieces) :=
            ⟨fun p hp => h.unbroken p (List.mem_cons_of_mem piece hp), hrest⟩
          rw [List.intercalate_cons_cons, List.append_assoc, List.singleton_append,
            splitTop_append_separator htop (hclosed next List.mem_cons_self),
            ih hpieces (List.cons_ne_nil next pieces), hunbroken]
          rfl

end Nesting

end TemplateCompiler
