/-
Where an offset stands among the lines.

The starts of the lines ascend, so those up to an offset are the ones of the text before it: the
lines that begin later begin after it.  Their number is one more than the number of line feeds
before the offset, and the last of them is where the last line feed ends.  So the line and the
column of an offset are known from the text before it alone.
-/
import Mathlib.Data.List.TakeWhile
import TemplateCompiler.Markup.Position

namespace TemplateCompiler

/-- What stands after the last line feed of a text. -/
def lastLine (cs : List Char) : List Char := (cs.reverse.takeWhile (· != '\n')).reverse

/-- A text is its lines, of which all but the last one end with a line feed. -/
theorem exists_lines (cs : List Char) :
    ∃ lines, cs = lines ++ lastLine cs ∧ (lines = [] ∨ ∃ front, lines = front ++ ['\n']) ∧
      '\n' ∉ lastLine cs := by
  refine ⟨(cs.reverse.dropWhile (· != '\n')).reverse, ?_, ?_, ?_⟩
  · unfold lastLine
    rw [← List.reverse_append, List.takeWhile_append_dropWhile, List.reverse_reverse]
  · cases hrest : cs.reverse.dropWhile (· != '\n') with
    | nil => exact .inl rfl
    | cons c rest =>
        have hc := List.head?_dropWhile_not (· != '\n') cs.reverse
        rw [hrest] at hc
        have hc : c = '\n' := by simpa using hc
        exact .inr ⟨rest.reverse, by rw [hc, List.reverse_cons]⟩
  · unfold lastLine
    rw [List.mem_reverse]
    intro hmem
    simpa using List.mem_takeWhile_imp hmem

namespace LineIndex

variable {offset : Nat}

theorem startsAfter_append (offset : Nat) (cs ds : List Char) :
    startsAfter offset (cs ++ ds)
      = startsAfter offset cs ++ startsAfter (offset + byteLength cs) ds := by
  induction cs generalizing offset with
  | nil => rfl
  | cons c rest ih =>
      simp only [List.cons_append, startsAfter, byteLength, ih, Nat.add_assoc]
      split <;> rfl

theorem startsAfter_of_not_mem {cs : List Char} (h : '\n' ∉ cs) : startsAfter offset cs = [] := by
  induction cs generalizing offset with
  | nil => rfl
  | cons c rest ih =>
      rw [List.mem_cons, not_or] at h
      rw [startsAfter, ih h.2, if_neg (by simpa using Ne.symm h.1)]

/-- One line begins after every line feed. -/
theorem length_startsAfter (offset : Nat) (cs : List Char) :
    (startsAfter offset cs).length = cs.count '\n' := by
  induction cs generalizing offset with
  | nil => rfl
  | cons c rest ih =>
      rw [startsAfter, List.count_cons]
      by_cases hc : (c == '\n') = true
      · rw [if_pos hc, if_pos hc, List.length_cons, ih]
      · rw [if_neg hc, if_neg hc, ih, Nat.add_zero]

/-- A line begins in the text, or where it ends. -/
theorem le_of_mem_startsAfter {start : Nat} {cs : List Char} (h : start ∈ startsAfter offset cs) :
    start ≤ offset + byteLength cs := by
  induction cs generalizing offset with
  | nil => cases h
  | cons c rest ih =>
      rw [startsAfter] at h
      rw [byteLength]
      split at h
      · rcases List.mem_cons.mp h with rfl | h
        · omega
        · have := ih h
          omega
      · have := ih h
        omega

/-- The lines that have begun at an offset are those of the text before it. -/
theorem takeWhile_starts {text : String} {before rest : List Char}
    (htext : text.toList = before ++ rest) :
    (ofText text).starts.takeWhile (fun start => start ≤ byteLength before)
      = 0 :: startsAfter 0 before := by
  have hbefore : ∀ start ∈ 0 :: startsAfter 0 before,
      decide (start ≤ byteLength before) = true := by
    intro start hstart
    rw [decide_eq_true_eq]
    rcases List.mem_cons.mp hstart with rfl | hstart
    · exact Nat.zero_le _
    · simpa using le_of_mem_startsAfter hstart
  unfold ofText
  rw [htext, startsAfter_append, ← List.cons_append, List.takeWhile_append_of_pos hbefore,
    Nat.zero_add]
  cases hrest : startsAfter (byteLength before) rest with
  | nil => simp
  | cons start starts =>
      have hlt := lt_of_mem_startsAfter (hrest ▸ List.mem_cons_self)
      rw [List.takeWhile_cons_of_neg (by simpa using hlt), List.append_nil]

/-- The last line before an offset begins after the last line feed. -/
theorem getLastD_starts {lines current : List Char}
    (hlines : lines = [] ∨ ∃ front, lines = front ++ ['\n']) (hcurrent : '\n' ∉ current) :
    (0 :: startsAfter 0 (lines ++ current)).getLastD 0 = byteLength lines := by
  rw [startsAfter_append, startsAfter_of_not_mem hcurrent, List.append_nil]
  rcases hlines with rfl | ⟨front, rfl⟩
  · rfl
  · have hlast : startsAfter (0 + byteLength front) ['\n'] = [byteLength (front ++ ['\n'])] := by
      rw [byteLength_append, Nat.zero_add]
      rfl
    rw [startsAfter_append, hlast, ← List.cons_append, List.getLastD_eq_getLast?, List.getLast?_concat]
    rfl

/-- Lines are counted by the line feeds before, and columns by the bytes after the last of them. -/
theorem lineCol_byteLength {text : String} {before rest : List Char}
    (htext : text.toList = before ++ rest) :
    (ofText text).lineCol (byteLength before)
      = ⟨1 + before.count '\n', 1 + byteLength (lastLine before)⟩ := by
  obtain ⟨lines, hlines, hends, hlast⟩ := exists_lines before
  have hstart := getLastD_starts hends hlast
  have hlength := congrArg byteLength hlines
  rw [← hlines] at hstart
  rw [byteLength_append] at hlength
  unfold lineCol
  rw [takeWhile_starts htext]
  dsimp only
  rw [hstart, List.length_cons, length_startsAfter, LineCol.mk.injEq]
  omega

end LineIndex

end TemplateCompiler
