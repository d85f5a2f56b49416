/-
Offsets, and lines and columns, are two ways to say one thing.

Lines are counted in bytes here.  The byte of a line feed stands for a line feed only, never for a
part of another character, so lines begin after these bytes and nowhere else (`startsAfter_eq`).
Of the lines of a text those that begin up to an offset are the lines of the bytes before it,
however many there are: the offset may lie inside a character or past the end.  So their number is
known from these bytes, and the last of them is the line of the offset (`startsLine_lineStart`).

In words the same is found.  The starts ascend, so halving the table ends at the number of those
up to the offset (`bisect_eq`).  The first start is zero and each number is at most that of the
bytes, so nothing that is watched goes wrong if one more than this number is still a word.
-/
import TemplateCompiler.Markup.LineTable
import TemplateCompiler.Proofs.Lines
import TemplateCompiler.Proofs.Reading.Extent

namespace TemplateCompiler

/-- The bytes of a text. -/
def utf8Bytes (text : String) : List UInt8 := text.toUTF8.data.toList

/-- The byte of a line feed. -/
def feedByte : UInt8 := 10

/-- The line of an offset begins at `start`: at the first byte or after a line feed, with no line
feed from there to the offset. -/
structure StartsLine (bytes : List UInt8) (offset start : Nat) : Prop where
  le : start ≤ offset
  begins : start = 0 ∨ bytes[start - 1]? = some feedByte
  unbroken : ∀ i, start ≤ i → i < offset → bytes[i]? ≠ some feedByte

/-- The one place comes before the other: on an earlier line, or on the same line further left. -/
def LineCol.Before (p q : LineCol) : Prop := p.line < q.line ∨ p.line = q.line ∧ p.col < q.col

instance (p q : LineCol) : Decidable (p.Before q) :=
  inferInstanceAs (Decidable (p.line < q.line ∨ p.line = q.line ∧ p.col < q.col))

/-! ### Bytes -/

theorem utf8Bytes_eq (text : String) :
    utf8Bytes text = text.toList.flatMap String.utf8EncodeChar := by
  unfold utf8Bytes
  rw [show text.toUTF8 = text.toByteArray from rfl, ← String.utf8Encode_toList]
  simp [List.utf8Encode]

theorem length_flatMap_utf8EncodeChar (cs : List Char) :
    (cs.flatMap String.utf8EncodeChar).length = byteLength cs := by
  induction cs with
  | nil => rfl
  | cons c cs ih =>
      rw [List.flatMap_cons, List.length_append, String.length_utf8EncodeChar, ih, byteLength]

theorem length_utf8Bytes (text : String) : (utf8Bytes text).length = text.utf8ByteSize := by
  rw [utf8Bytes_eq, length_flatMap_utf8EncodeChar, byteLength_toList]

/-- The byte of a line feed is no part of another character: one byte is the character itself, and
of several bytes each is 128 or more. -/
theorem feedByte_not_mem {c : Char} (hc : c ≠ '\n') : feedByte ∉ String.utf8EncodeChar c := by
  have hval : c.val.toNat ≠ 10 := fun h => hc (Char.ext (UInt32.toNat_inj.mp h))
  have hbyte : ∀ n, n < 256 → n ≠ 10 → feedByte ≠ UInt8.ofNat n := by
    intro n hn hne heq
    have hnat := congrArg UInt8.toNat heq
    rw [UInt8.toNat_ofNat', Nat.mod_eq_of_lt hn] at hnat
    exact hne hnat.symm
  intro h
  unfold String.utf8EncodeChar at h
  dsimp only at h
  split at h
  · exact hbyte _ (by omega) hval (List.mem_singleton.mp h)
  · split at h
    · simp only [List.mem_cons, List.not_mem_nil, or_false] at h
      rcases h with h | h <;> exact hbyte _ (by omega) (by omega) h
    · split at h
      · simp only [List.mem_cons, List.not_mem_nil, or_false] at h
        rcases h with h | h | h <;> exact hbyte _ (by omega) (by omega) h
      · simp only [List.mem_cons, List.not_mem_nil, or_false] at h
        rcases h with h | h | h | h <;> exact hbyte _ (by omega) (by omega) h

namespace LineIndex

/-- The starts of the lines that begin in bytes, the first of which stands at `offset`. -/
def startsIn (offset : Nat) : List UInt8 → List Nat
  | [] => []
  | b :: bytes =>
    if b = feedByte then (offset + 1) :: startsIn (offset + 1) bytes
    else startsIn (offset + 1) bytes

variable {offset : Nat} {bytes : List UInt8}

theorem startsIn_append (offset : Nat) (bytes others : List UInt8) :
    startsIn offset (bytes ++ others)
      = startsIn offset bytes ++ startsIn (offset + bytes.length) others := by
  induction bytes generalizing offset with
  | nil => rfl
  | cons b bytes ih =>
      rw [List.cons_append, startsIn, startsIn, ih, List.length_cons, Nat.add_assoc offset 1,
        Nat.add_comm 1 bytes.length]
      split <;> rfl

theorem startsIn_of_not_mem (h : feedByte ∉ bytes) : startsIn offset bytes = [] := by
  induction bytes generalizing offset with
  | nil => rfl
  | cons b bytes ih =>
      rw [List.mem_cons, not_or] at h
      rw [startsIn, if_neg (Ne.symm h.1), ih h.2]

/-- Lines begin after the bytes of line feeds. -/
theorem startsAfter_eq (offset : Nat) (cs : List Char) :
    startsAfter offset cs = startsIn offset (cs.flatMap String.utf8EncodeChar) := by
  induction cs generalizing offset with
  | nil => rfl
  | cons c cs ih =>
      rw [startsAfter, List.flatMap_cons, startsIn_append, String.length_utf8EncodeChar, ← ih]
      by_cases hc : c = '\n'
      · subst hc
        rfl
      · rw [if_neg (by simpa using hc), startsIn_of_not_mem (feedByte_not_mem hc), List.nil_append]

theorem length_startsIn (offset : Nat) (bytes : List UInt8) :
    (startsIn offset bytes).length = bytes.count feedByte := by
  induction bytes generalizing offset with
  | nil => rfl
  | cons b bytes ih =>
      rw [startsIn, List.count_cons]
      by_cases hb : b = feedByte
      · rw [if_pos hb, if_pos (beq_iff_eq.mpr hb), List.length_cons, ih]
      · rw [if_neg hb, if_neg (by simpa using hb), ih, Nat.add_zero]

theorem lt_of_mem_startsIn {start : Nat} (h : start ∈ startsIn offset bytes) : offset < start := by
  induction bytes generalizing offset with
  | nil => cases h
  | cons b bytes ih =>
      rw [startsIn] at h
      split at h
      · rcases List.mem_cons.mp h with rfl | h
        · exact Nat.lt_succ_self offset
        · exact Nat.lt_of_succ_lt (ih h)
      · exact Nat.lt_of_succ_lt (ih h)

/-- The lines that begin up to an offset are those of the bytes before it. -/
theorem takeWhile_startsIn (offset n : Nat) (bytes : List UInt8) :
    (startsIn offset bytes).takeWhile (fun start => start ≤ offset + n)
      = startsIn offset (bytes.take n) := by
  induction bytes generalizing offset n with
  | nil => simp [startsIn]
  | cons b bytes ih =>
      cases n with
      | zero =>
          cases hstarts : startsIn offset (b :: bytes) with
          | nil => rfl
          | cons start starts =>
              have hlt := lt_of_mem_startsIn (hstarts ▸ List.mem_cons_self)
              exact List.takeWhile_cons_of_neg (by simpa using hlt)
      | succ n =>
          have hnext := ih (offset + 1) n
          rw [Nat.add_assoc, Nat.add_comm 1 n] at hnext
          rw [List.take_succ_cons, startsIn, startsIn]
          split
          · rw [List.takeWhile_cons_of_pos (by simp), hnext]
          · exact hnext

/-! ### The line of an offset -/

/-- Where the line of an offset begins. -/
def lineStart (text : String) (offset : Nat) : Nat :=
  (0 :: startsIn 0 ((utf8Bytes text).take offset)).getLastD 0

theorem starts_eq (text : String) : (ofText text).starts = 0 :: startsIn 0 (utf8Bytes text) := by
  unfold ofText
  rw [startsAfter_eq, ← utf8Bytes_eq]

theorem takeWhile_starts_le (text : String) (offset : Nat) :
    (ofText text).starts.takeWhile (fun start => start ≤ offset)
      = 0 :: startsIn 0 ((utf8Bytes text).take offset) := by
  have hbegun := takeWhile_startsIn 0 offset (utf8Bytes text)
  rw [Nat.zero_add] at hbegun
  rw [starts_eq, List.takeWhile_cons_of_pos (by simp), hbegun]

/-- A line is counted by the line feeds before, and a column by the bytes from the start of the
line. -/
theorem lineCol_eq (text : String) (offset : Nat) :
    (ofText text).lineCol offset
      = ⟨1 + ((utf8Bytes text).take offset).count feedByte,
          1 + (offset - lineStart text offset)⟩ := by
  unfold lineCol lineStart
  rw [takeWhile_starts_le]
  dsimp only
  rw [List.length_cons, length_startsIn, Nat.add_comm 1, Nat.add_comm 1]

/-- Byte by byte: a line feed ends the line, and any other byte stays on it. -/
theorem startsLine_lineStart (text : String) (offset : Nat) :
    StartsLine (utf8Bytes text) offset (lineStart text offset) := by
  unfold lineStart
  induction offset with
  | zero => exact ⟨Nat.le_refl 0, .inl rfl, fun i _ hi => absurd hi (Nat.not_lt_zero i)⟩
  | succ offset ih =>
      rw [List.take_add_one, startsIn_append, ← List.cons_append, Nat.zero_add]
      by_cases hfeed : (utf8Bytes text)[offset]? = some feedByte
      · have hlt := (List.getElem?_eq_some_iff.mp hfeed).1
        have hstart : startsIn ((utf8Bytes text).take offset).length [feedByte] = [offset + 1] := by
          rw [startsIn, if_pos rfl, List.length_take_of_le (Nat.le_of_lt hlt)]
          rfl
        rw [hfeed, Option.toList_some, hstart, List.getLastD_concat]
        exact ⟨Nat.le_refl _, .inr hfeed, fun i hle hi => absurd hi (Nat.not_lt.mpr hle)⟩
      · have hnone : startsIn ((utf8Bytes text).take offset).length (utf8Bytes text)[offset]?.toList
            = [] := by
          refine startsIn_of_not_mem fun hmem => hfeed ?_
          exact Option.mem_toList.mp hmem
        rw [hnone, List.append_nil]
        refine ⟨Nat.le_succ_of_le ih.le, ih.begins, fun i hle hi => ?_⟩
        rcases Nat.lt_succ_iff_lt_or_eq.mp hi with hi | rfl
        · exact ih.unbroken i hle hi
        · exact hfeed

/-- The start of the line of an offset stands in the index under the number of the line. -/
theorem getElem?_starts (text : String) (offset : Nat) :
    (ofText text).starts[((utf8Bytes text).take offset).count feedByte]?
      = some (lineStart text offset) := by
  have hbegun := List.takeWhile_prefix (l := (ofText text).starts) fun start => start ≤ offset
  rw [takeWhile_starts_le] at hbegun
  have hlast : (0 :: startsIn 0 ((utf8Bytes text).take offset))[
      ((utf8Bytes text).take offset).count feedByte]? = some (lineStart text offset) := by
    unfold lineStart
    rw [List.getLastD_eq_getLast?, List.getLast?_eq_getElem?, List.length_cons, length_startsIn,
      Nat.add_sub_cancel, List.getElem?_eq_getElem (by simp [length_startsIn]), Option.getD_some]
  obtain ⟨rest, hrest⟩ := hbegun
  rw [← hrest, List.getElem?_append_left (by simp [length_startsIn]), hlast]

/-- A later offset has a later place. -/
theorem lineCol_before (text : String) {offset later : Nat} (hlt : offset < later) :
    ((ofText text).lineCol offset).Before ((ofText text).lineCol later) := by
  have hcount : ((utf8Bytes text).take offset).count feedByte
      ≤ ((utf8Bytes text).take later).count feedByte :=
    ((List.take_prefix_take_left (Nat.le_of_lt hlt)).sublist).count_le _
  rw [lineCol_eq, lineCol_eq]
  rcases Nat.lt_or_eq_of_le hcount with hline | hline
  · exact .inl (Nat.add_lt_add_left hline 1)
  · -- On the same line the columns are counted from the same start.
    have hstart := getElem?_starts text offset
    rw [hline, getElem?_starts, Option.some.injEq] at hstart
    have hle := (startsLine_lineStart text offset).le
    refine .inr ⟨congrArg (1 + ·) hline, ?_⟩
    show 1 + (offset - lineStart text offset) < 1 + (later - lineStart text later)
    omega

end LineIndex

/-! ### Words -/

namespace Word

variable {x y : UInt32}

theorem exists_add? (h : x.toNat + y.toNat < UInt32.size) :
    ∃ z, add? x y = some z ∧ z.toNat = x.toNat + y.toNat :=
  ⟨x + y, if_pos h, by rw [UInt32.toNat_add, Nat.mod_eq_of_lt h]⟩

theorem exists_sub? (h : y.toNat ≤ x.toNat) :
    ∃ z, sub? x y = some z ∧ z.toNat = x.toNat - y.toNat :=
  have hle : y ≤ x := UInt32.le_iff_toNat_le.mpr h
  ⟨x - y, if_pos hle, UInt32.toNat_sub_of_le x y hle⟩

end Word

namespace LineTable

variable {text : String}

/-! ### The table -/

theorem toList_fill (starts : Array UInt32) (offset : Nat) (cs : List Char) :
    (fill starts offset cs).toList
      = starts.toList ++ (LineIndex.startsAfter offset cs).map UInt32.ofNat := by
  induction cs generalizing starts offset with
  | nil => simp [fill, LineIndex.startsAfter]
  | cons c cs ih =>
      rw [fill, ih, LineIndex.startsAfter]
      by_cases hc : c = '\n'
      · subst hc
        simp [show '\n'.utf8Size = 1 from rfl]
      · have hbeq : (c == '\n') = false := by simpa using hc
        rw [hbeq]
        rfl

theorem toList_ofText (text : String) :
    (ofText text).starts.toList = (LineIndex.ofText text).starts.map UInt32.ofNat := by
  unfold ofText
  rw [toList_fill]
  rfl

/-- Every start is found in a word. -/
theorem lt_of_mem_starts (hsize : text.utf8ByteSize < UInt32.size - 1) {start : Nat}
    (h : start ∈ (LineIndex.ofText text).starts) : start < UInt32.size := by
  rcases List.mem_cons.mp h with rfl | h
  · decide
  · have hle := LineIndex.le_of_mem_startsAfter h
    rw [byteLength_toList, Nat.zero_add] at hle
    omega

/-! ### Halving -/

/-- Halving ends at the position from which on `p` does not hold, if there is one. -/
theorem bisect_eq {α : Type} (p : α → Bool) (entries : Array α) (cut : Nat)
    (hcut : ∀ i (h : i < entries.size), p entries[i] = true ↔ i < cut) (low high : Nat)
    (hhigh : high ≤ entries.size) (hlow : low ≤ cut) (hle : cut ≤ high) :
    bisect p entries low high hhigh = cut := by
  fun_induction bisect p entries low high hhigh with
  | case1 low high hhigh hopen middle hp ih =>
      have hmiddle : middle < cut := (hcut middle _).mp hp
      exact ih hmiddle hle
  | case2 low high hhigh hopen middle hp ih =>
      have hmiddle : ¬ middle < cut := fun hlt => hp ((hcut middle _).mpr hlt)
      exact ih hlow (Nat.not_lt.mp hmiddle)
  | case3 low high hhigh hclosed => omega

/-- In a list that ascends, the entries up to a bound are those at the front. -/
theorem getElem_le_iff {starts : List Nat} (h : starts.Pairwise (· < ·)) (bound i : Nat)
    (hi : i < starts.length) :
    starts[i] ≤ bound ↔ i < (starts.takeWhile fun start => start ≤ bound).length := by
  induction starts generalizing i with
  | nil => cases hi
  | cons start starts ih =>
      obtain ⟨hfirst, hrest⟩ := List.pairwise_cons.mp h
      by_cases hle : start ≤ bound
      · rw [List.takeWhile_cons_of_pos (by simpa using hle), List.length_cons]
        cases i with
        | zero => exact iff_of_true hle (Nat.succ_pos _)
        | succ i => exact (ih hrest i (Nat.lt_of_succ_lt_succ hi)).trans Nat.succ_lt_succ_iff.symm
      · rw [List.takeWhile_cons_of_neg (by simpa using hle)]
        refine iff_of_false (fun hi' => hle ?_) (Nat.not_lt_zero i)
        cases i with
        | zero => exact hi'
        | succ i =>
            have hlt := hfirst _ (List.getElem_mem (Nat.lt_of_succ_lt_succ hi))
            exact Nat.le_trans (Nat.le_of_lt hlt) hi'

theorem pairwise_startsAfter (offset : Nat) (cs : List Char) :
    (LineIndex.startsAfter offset cs).Pairwise (· < ·) := by
  induction cs generalizing offset with
  | nil => exact List.Pairwise.nil
  | cons c cs ih =>
      rw [LineIndex.startsAfter]
      split
      · exact List.pairwise_cons.mpr ⟨fun _ hmem => LineIndex.lt_of_mem_startsAfter hmem, ih _⟩
      · exact ih _

theorem pairwise_starts (text : String) : (LineIndex.ofText text).starts.Pairwise (· < ·) :=
  List.pairwise_cons.mpr
    ⟨fun _ hmem => LineIndex.lt_of_mem_startsAfter hmem, pairwise_startsAfter 0 _⟩

/-- Halving the table counts the lines that begin up to an offset. -/
theorem bisect_starts (hsize : text.utf8ByteSize < UInt32.size - 1) (offset : UInt32) :
    bisect (fun start => decide (start ≤ offset)) (ofText text).starts 0 (ofText text).starts.size
      (Nat.le_refl _) = 1 + ((utf8Bytes text).take offset.toNat).count feedByte := by
  have hlength : (ofText text).starts.size = (LineIndex.ofText text).starts.length := by
    rw [← Array.length_toList, toList_ofText, List.length_map]
  have hcount : ((LineIndex.ofText text).starts.takeWhile
      fun start => start ≤ offset.toNat).length
        = 1 + ((utf8Bytes text).take offset.toNat).count feedByte := by
    rw [LineIndex.takeWhile_starts_le, List.length_cons, LineIndex.length_startsIn, Nat.add_comm]
  rw [← hcount]
  refine bisect_eq _ _ _ (fun i hi => ?_) 0 _ _ (Nat.zero_le _) ?_
  · have hi' := hlength ▸ hi
    have hword : (ofText text).starts[i] = UInt32.ofNat (LineIndex.ofText text).starts[i] := by
      rw [← Array.getElem_toList]
      simp only [toList_ofText, List.getElem_map]
    rw [hword, decide_eq_true_eq, UInt32.le_iff_toNat_le,
      UInt32.toNat_ofNat_of_lt' (lt_of_mem_starts hsize (List.getElem_mem hi')),
      getElem_le_iff (pairwise_starts text)]
  · rw [hlength]
    exact (List.takeWhile_prefix _).length_le

/-! ### The place of an offset -/

/-- The place is found from the table, it is the one that the index says, and the bytes of the text
say the same. -/
structure Places (text : String) (offset : UInt32) (place : LineCol) (start : UInt32) : Prop where
  found : (ofText text).lineCol? offset = some place
  indexed : (LineIndex.ofText text).lineCol offset.toNat = place
  /-- The start of the line is the entry of the table under the number of the line. -/
  entry : (ofText text).starts[place.line - 1]? = some start
  startsLine : StartsLine (utf8Bytes text) offset.toNat start.toNat
  line : place.line = 1 + ((utf8Bytes text).take offset.toNat).count feedByte
  col : place.col = 1 + (offset.toNat - start.toNat)
  /-- The offset is read off the place. -/
  restored : offset.toNat = start.toNat + place.col - 1

theorem exists_places (hsize : text.utf8ByteSize < UInt32.size - 1) {offset : UInt32}
    (hoffset : offset.toNat < UInt32.size - 1) : ∃ place start, Places text offset place start := by
  have hlines : ((utf8Bytes text).take offset.toNat).count feedByte ≤ text.utf8ByteSize := by
    rw [← length_utf8Bytes]
    exact List.count_le_length.trans (List.length_take_le' _ _)
  have hentry := LineIndex.getElem?_starts text offset.toNat
  have hstarts := LineIndex.startsLine_lineStart text offset.toNat
  have hplace := LineIndex.lineCol_eq text offset.toNat
  generalize hline : ((utf8Bytes text).take offset.toNat).count feedByte = line at *
  generalize LineIndex.lineStart text offset.toNat = start at *
  have hstart : (UInt32.ofNat start).toNat = start :=
    UInt32.toNat_ofNat_of_lt' (Nat.lt_of_le_of_lt hstarts.le offset.toNat_lt_size)
  have hword : (ofText text).starts[line]? = some (UInt32.ofNat start) := by
    rw [← Array.getElem?_toList, toList_ofText, List.getElem?_map, hentry, Option.map_some]
  -- Nothing that is watched goes wrong.
  have hone : (1 : UInt32).toNat = 1 := rfl
  have hnumber : (UInt32.ofNat line).toNat = line := UInt32.toNat_ofNat_of_lt' (by omega)
  obtain ⟨number, hadd, hnumber'⟩ := Word.exists_add? (x := UInt32.ofNat line) (y := 1) (by omega)
  obtain ⟨width, hsub, hwidth⟩ := Word.exists_sub? (x := offset) (y := UInt32.ofNat start)
    (hstart.symm ▸ hstarts.le)
  obtain ⟨col, hadd', hcol⟩ := Word.exists_add? (x := width) (y := 1) (by omega)
  have hfound : (ofText text).lineCol? offset = some ⟨number.toNat, col.toNat⟩ := by
    unfold lineCol?
    rw [bisect_starts hsize, hline, Nat.add_sub_cancel_left]
    simp only [hadd, hword, hsub, hadd', Option.bind_eq_bind, Option.bind_some, Option.pure_def]
  have hle := hstarts.le
  refine ⟨_, UInt32.ofNat start, hfound, ?_, ?_, ?_, ?_, ?_, ?_⟩
  · rw [hplace, LineCol.mk.injEq]
    omega
  · show (ofText text).starts[number.toNat - 1]? = _
    rw [hnumber', hnumber, hone, Nat.add_sub_cancel, hword]
  · rw [hstart]
    exact hstarts
  · show number.toNat = 1 + _
    omega
  · show col.toNat = 1 + _
    omega
  · show offset.toNat = _ + col.toNat - 1
    omega

/-- Lines and columns are exact and invertible.  If one more than the bytes of a text is a word,
every offset below the greatest word has a place, also past the end and inside a character: its
line is one more than the line feeds before it, its column is counted from the start of this line,
which the table has under the number of the line, and both together give the offset back.  And a
later offset has a later place. -/
theorem lineCol?_exact (text : String) (hsize : text.utf8ByteSize < UInt32.size - 1) :
    (∀ offset : UInt32, offset.toNat < UInt32.size - 1 →
      ∃ place start, Places text offset place start) ∧
    ∀ offset later : UInt32, offset < later → later.toNat < UInt32.size - 1 →
      ∃ place place', (ofText text).lineCol? offset = some place ∧
        (ofText text).lineCol? later = some place' ∧ place.Before place' := by
  refine ⟨fun offset hoffset => exists_places hsize hoffset, fun offset later hlt hlater => ?_⟩
  have hlt' : offset.toNat < later.toNat := UInt32.lt_iff_toNat_lt.mp hlt
  obtain ⟨place, start, hplace⟩ := exists_places hsize (hlt'.trans hlater)
  obtain ⟨place', start', hplace'⟩ := exists_places hsize hlater
  refine ⟨place, place', hplace.found, hplace'.found, ?_⟩
  rw [← hplace.indexed, ← hplace'.indexed]
  exact LineIndex.lineCol_before text hlt'

/-- An offset inside a character, and one past the end of a text with an empty line. -/
theorem lineCol?_exact_outside :
    let text := "é\n\nx"
    text.utf8ByteSize < UInt32.size - 1 ∧ (∃ start, Places text 1 ⟨1, 2⟩ start) ∧
      (∃ start, Places text 9 ⟨3, 6⟩ start) ∧ LineCol.Before ⟨1, 2⟩ ⟨3, 6⟩ := by
  intro text
  have hsize : text.utf8ByteSize < UInt32.size - 1 := by decide
  have hinside : (ofText text).lineCol? 1 = some ⟨1, 2⟩ := by decide +kernel
  have hpast : (ofText text).lineCol? 9 = some ⟨3, 6⟩ := by decide +kernel
  obtain ⟨hplaces, hbefore⟩ := lineCol?_exact text hsize
  obtain ⟨place, start, hplace⟩ := hplaces 1 (by decide)
  obtain ⟨place', start', hplace'⟩ := hplaces 9 (by decide)
  obtain ⟨first, second, hfirst, hsecond, hlt⟩ := hbefore 1 9 (by decide) (by decide)
  cases hplace.found.symm.trans hinside
  cases hplace'.found.symm.trans hpast
  cases hfirst.symm.trans hinside
  cases hsecond.symm.trans hpast
  exact ⟨hsize, ⟨start, hplace⟩, ⟨start', hplace'⟩, hlt⟩

end LineTable

end TemplateCompiler
