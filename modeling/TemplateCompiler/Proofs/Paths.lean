/-
Paths and the names in them.

A path falls into pieces at its slashes, so no piece holds a slash, and the pieces of two
paths that a slash connects are those of the one and then those of the other.  `join` puts
a slash between two paths unless the first one ends in a slash or is empty, and either way
its pieces are those of the second path after those of the first: `exists_join` says so
with a front that leaves the last empty piece of the first path out.

What a directory can hold goes by a proper name (`IsName`): not empty, no single or double
dot, and without a slash.  Only such names come back from a path as they are
(`pieces_ofNames`), and so different names make different paths (`ofNames_inj`).
-/
import TemplateCompiler.Project.Path

namespace TemplateCompiler

namespace Path

/-- What can be the name of a file or a directory. -/
structure IsName (name : String) : Prop where
  ne_empty : name ≠ ""
  ne_dot : name ≠ "."
  ne_dots : name ≠ ".."
  no_slash : '/' ∉ name.toList

variable {path piece name : String} {ns : List String}

/-! ### Pieces -/

theorem pieces_ne_nil (path : String) : pieces path ≠ [] := by
  unfold pieces
  rw [ne_eq, List.map_eq_nil_iff]
  exact List.splitOn_ne_nil _ _

theorem pieces_append (a b : String) : pieces (a ++ "/" ++ b) = pieces a ++ pieces b := by
  have hchars : (a ++ "/" ++ b).toList = a.toList ++ '/' :: b.toList := by simp
  unfold pieces
  rw [hchars, List.splitOn_append_cons_self, List.map_append]

theorem pieces_eq_singleton (h : '/' ∉ path.toList) : pieces path = [path] := by
  unfold pieces
  rw [List.splitOn_eq_singleton h, List.map_singleton, String.ofList_toList]

theorem not_mem_of_mem_splitOn {cs chars : List Char} (h : chars ∈ cs.splitOn '/') :
    '/' ∉ chars := by
  induction cs generalizing chars with
  | nil =>
      rw [List.splitOn_nil, List.mem_singleton] at h
      exact h ▸ List.not_mem_nil
  | cons c cs ih =>
      rw [List.splitOn_cons_eq_if_modifyHead] at h
      split at h
      · obtain rfl | h := List.mem_cons.mp h
        · exact List.not_mem_nil
        · exact ih h
      · next hc =>
        cases hsplit : cs.splitOn '/' with
        | nil => exact absurd hsplit (List.splitOn_ne_nil _ _)
        | cons first rest =>
            rw [hsplit, List.modifyHead_cons] at h
            rw [hsplit] at ih
            obtain rfl | h := List.mem_cons.mp h
            · rw [List.mem_cons, not_or]
              exact ⟨fun hslash => hc (beq_iff_eq.mpr hslash.symm), ih List.mem_cons_self⟩
            · exact ih (List.mem_cons_of_mem _ h)

/-- No piece holds a slash. -/
theorem no_slash_of_mem_pieces (h : piece ∈ pieces path) : '/' ∉ piece.toList := by
  unfold pieces at h
  obtain ⟨chars, hchars, rfl⟩ := List.mem_map.mp h
  rw [String.toList_ofList]
  exact not_mem_of_mem_splitOn hchars

theorem pieces_ofNames (hne : ns ≠ []) (h : ∀ name ∈ ns, '/' ∉ name.toList) :
    pieces (ofNames ns) = ns := by
  unfold ofNames
  induction ns with
  | nil => exact absurd rfl hne
  | cons name rest ih =>
      have hname := pieces_eq_singleton (h name List.mem_cons_self)
      cases rest with
      | nil => rw [String.intercalate_singleton, hname]
      | cons next rest =>
          rw [String.intercalate_cons_cons, pieces_append, hname,
            ih (List.cons_ne_nil _ _) fun n hn => h n (List.mem_cons_of_mem _ hn)]
          rfl

/-! ### Names -/

theorem isSaid_iff : isSaid piece = true ↔ piece ≠ "" ∧ piece ≠ "." := by
  unfold isSaid
  rw [Bool.and_eq_true, bne_iff_ne, bne_iff_ne]

theorem IsName.said (h : IsName name) : isSaid name = true :=
  isSaid_iff.mpr ⟨h.ne_empty, h.ne_dot⟩

/-- A piece that says something is a name, unless it leads up. -/
theorem isName_of_mem_names (h : name ∈ names path) (hdots : name ≠ "..") : IsName name := by
  obtain ⟨hpiece, hsaid⟩ := List.mem_filter.mp h
  obtain ⟨hempty, hdot⟩ := isSaid_iff.mp hsaid
  exact ⟨hempty, hdot, hdots, no_slash_of_mem_pieces hpiece⟩

theorem names_ofNames (hne : ns ≠ []) (h : ∀ name ∈ ns, IsName name) :
    names (ofNames ns) = ns := by
  unfold names
  rw [pieces_ofNames hne fun name hname => (h name hname).no_slash]
  exact List.filter_eq_self.mpr fun name hname => (h name hname).said

theorem ofNames_inj {ns' : List String} (hne : ns ≠ []) (hne' : ns' ≠ [])
    (h : ∀ name ∈ ns, IsName name) (h' : ∀ name ∈ ns', IsName name)
    (heq : ofNames ns = ofNames ns') : ns = ns' := by
  rw [← names_ofNames hne h, heq, names_ofNames hne' h']

theorem isAbsolute_ofNames (hne : ns ≠ []) (h : ∀ name ∈ ns, IsName name) :
    isAbsolute (ofNames ns) = false := by
  obtain ⟨name, rest, rfl⟩ := List.exists_cons_of_ne_nil hne
  have hname := h name List.mem_cons_self
  -- the path begins as its first name does
  have hhead : (ofNames (name :: rest)).toList.head? = name.toList.head? := by
    obtain ⟨c, cs, hcs⟩ :=
      List.exists_cons_of_ne_nil (mt String.toList_eq_nil_iff.mp hname.ne_empty)
    unfold ofNames
    cases rest with
    | nil => rw [String.intercalate_singleton]
    | cons next rest => simp [String.intercalate_cons_cons, hcs]
  unfold isAbsolute
  rw [hhead, beq_eq_false_iff_ne]
  exact fun hslash => hname.no_slash (List.mem_of_mem_head? hslash)

/-! ### One path under another -/

theorem join_inj {a b : String} (h : join path a = join path b) : a = b := by
  unfold join at h
  split at h
  · exact (String.append_right_inj _).mp h
  · exact (String.append_right_inj _).mp h

/-- The pieces of a path under another one follow the pieces of that one, but for the
empty piece behind its last slash. -/
theorem exists_join (path relative : String) :
    ∃ front, pieces (join path relative) = front ++ pieces relative ∧
      (pieces path = front ∨ pieces path = front ++ [""]) := by
  unfold join
  by_cases hempty : path = ""
  · subst hempty
    exact ⟨[], by simp, .inr rfl⟩
  by_cases hslash : path.toList.getLast? = some '/'
  · obtain ⟨chars, hchars⟩ := List.getLast?_eq_some_iff.mp hslash
    have hpath : path = String.ofList chars ++ "/" := by
      rw [← String.ofList_toList (s := path), hchars, String.ofList_append]
    refine ⟨pieces (String.ofList chars), ?_, .inr ?_⟩
    · rw [if_pos (by simp [hslash]), hpath, pieces_append]
    · rw [hpath, ← String.append_empty (s := String.ofList chars ++ "/"), pieces_append]
      rfl
  · refine ⟨pieces path, ?_, .inl rfl⟩
    rw [if_neg (by simp [hempty, hslash]), pieces_append]

theorem names_join (path relative : String) :
    names (join path relative) = names path ++ names relative := by
  obtain ⟨front, hjoin, hpath⟩ := exists_join path relative
  unfold names
  rw [hjoin, List.filter_append]
  obtain hpath | hpath := hpath
  · rw [hpath]
  · rw [hpath, List.filter_append]
    simp [isSaid]

theorem isAbsolute_join {relative : String} (h : isAbsolute relative = false) :
    isAbsolute (join path relative) = isAbsolute path := by
  unfold join
  by_cases hempty : path = ""
  · subst hempty
    simpa [isAbsolute] using h
  · obtain ⟨c, cs, hcs⟩ := List.exists_cons_of_ne_nil (mt String.toList_eq_nil_iff.mp hempty)
    unfold isAbsolute
    split <;> simp [hcs]

end Path

end TemplateCompiler
