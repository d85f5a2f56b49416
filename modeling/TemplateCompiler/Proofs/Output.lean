/-
Filling an output directory.

`Fresh` says what an output directory is before a run: its path never leads up, nothing is
there, and it could be made.  So no file stands in the way to it, and everything below it
will have come from the run.

The files that are to be written have the names of files below one other directory.  No
such name continues another one, since nothing is below a file; that is why a directory
made for one of them is never where another one has to go.  `Progress` is the invariant of
the run that rests on this: all that the tree had is still there, what was written is
there, and anything new is either one of those or a directory on the way to one.
`Progress.write` is the step: the next write succeeds and keeps the invariant.
-/
import TemplateCompiler.Proofs.Walk

namespace TemplateCompiler

namespace FileTree

variable {t s : FileTree} {outDir : String} {place names names' : List String}
  {bytes source : ByteArray} {done : List (List String × ByteArray)}

/-- An output directory that is not there yet and can be made. -/
structure Fresh (t : FileTree) (outDir : String) : Prop where
  noUp : ".." ∉ Path.pieces outDir
  absent : ∀ place entry, t.locate outDir ≠ .ok (place, some entry)
  makeable : (t.makeDirectories (t.start outDir) (Path.names outDir).reverse).2 = .ok ()

namespace Fresh

theorem isName (h : t.Fresh outDir) {name : String} (hname : name ∈ Path.names outDir) :
    Path.IsName name :=
  Path.isName_of_mem_names hname fun heq => h.noUp (heq ▸ (List.mem_filter.mp hname).1)

theorem target_eq (h : t.Fresh outDir) : t.target outDir = t.start outDir ++ Path.names outDir := by
  unfold target
  rw [resolve_names_path, resolve_names fun _ => h.isName]

/-- No file is in the way to the directory. -/
theorem no_file (h : t.Fresh outDir) (hs : t.Sound) {above : List String}
    (habove : above <+: Path.names outDir) :
    t.find? (t.start outDir ++ above) ≠ some (.file bytes) := by
  intro hfile
  obtain ⟨hsound, hgrows, hthere⟩ := makeDirectories_grows hs (hs.start outDir)
    (Path.names outDir).reverse fun n hn => (h.isName (List.mem_reverse.mp hn)).no_slash
  have hmade := hthere h.makeable
  rw [List.reverse_reverse, resolve_names fun _ => h.isName] at hmade
  have hdir : (t.makeDirectories (t.start outDir) (Path.names outDir).reverse).1.find?
      (t.start outDir ++ Path.names outDir) = some .directory := by
    have hfound := congrArg Prod.snd (follow_ok hmade)
    rw [resolve_names fun _ => h.isName] at hfound
    exact hfound.symm
  have hkept := hgrows.kept hfile
  obtain ⟨below, hbelow⟩ := habove
  have hplace : t.start outDir ++ Path.names outDir = t.start outDir ++ above ++ below := by
    rw [← hbelow, List.append_assoc]
  rw [hplace] at hdir
  rw [hsound.not_below hkept hdir, List.append_nil, hkept] at hdir
  nomatch hdir

/-- There is nothing at the directory, nor below. -/
theorem none_below (h : t.Fresh outDir) (hs : t.Sound) (below : List String) :
    t.find? (t.target outDir ++ below) = none := by
  have hnone : t.find? (t.target outDir) = none := by
    rw [h.target_eq]
    cases hentry : t.find? (t.start outDir ++ Path.names outDir) with
    | none => rfl
    | some entry =>
        cases entry with
        | file bytes => exact absurd hentry (h.no_file hs List.prefix_rfl)
        | directory => exact absurd (follow_of_said (hs.follow_to hentry)) (h.absent _ _)
  by_cases hbelow : below = []
  · rw [hbelow, List.append_nil, hnone]
  · cases hentry : t.find? (t.target outDir ++ below) with
    | none => rfl
    | some entry =>
        rw [hs.above hentry hbelow] at hnone
        nomatch hnone

end Fresh

/-- What has been written, so far. -/
structure Progress (t : FileTree) (outDir : String) (done : List (List String × ByteArray))
    (s : FileTree) : Prop where
  sound : s.Sound
  working : s.working = t.working
  kept : ∀ q entry, t.find? q = some entry → s.find? q = some entry
  present : ∀ names bytes, (names, bytes) ∈ done →
    s.find? (t.target outDir ++ names) = some (.file bytes)
  new : ∀ q entry, s.find? q = some entry → t.find? q = some entry ∨
    (∃ names bytes, (names, bytes) ∈ done ∧ q = t.target outDir ++ names ∧ entry = .file bytes) ∨
    entry = .directory ∧ ∃ names bytes above, (names, bytes) ∈ done ∧
      above <+: Path.names outDir ++ names.dropLast ∧ q = t.start outDir ++ above

/-- The names are those of a file below a directory. -/
def FileAt (t : FileTree) (place names : List String) : Prop :=
  names ≠ [] ∧ ∃ bytes, t.find? (place ++ names) = some (.file bytes)

theorem FileAt.isName (hs : t.Sound) (h : t.FileAt place names) :
    ∀ name ∈ names, Path.IsName name := by
  obtain ⟨-, bytes, hfile⟩ := h
  exact fun name hname => hs.isName_of_find? hfile name (List.mem_append_right _ hname)

namespace Progress

theorem refl (hs : t.Sound) (outDir : String) : Progress t outDir [] t :=
  ⟨hs, rfl, fun _ _ h => h, nofun, fun _ _ h => .inl h⟩

section Paths

variable (hp : Progress t outDir done s) (hne : names ≠ [])
  (hnames : ∀ name ∈ names, Path.IsName name)
include hp hne hnames

theorem start_join : s.start (Path.join outDir (Path.ofNames names)) = t.start outDir := by
  rw [FileTree.start_join (Path.isAbsolute_ofNames hne hnames), start_congr hp.working]

theorem target_join :
    s.target (Path.join outDir (Path.ofNames names)) = t.target outDir ++ names := by
  rw [FileTree.target_join hne hnames, target_congr hp.working]

end Paths

/-- A write of a new file keeps the invariant. -/
theorem write (hp : Progress t outDir done s) (hs : t.Sound) (hfresh : t.Fresh outDir)
    (hfile : t.FileAt place names) (hnew : names ∉ done.map Prod.fst)
    {s' : FileTree} (h : s.write (Path.join outDir (Path.ofNames names)) bytes = (s', .ok ())) :
    Progress t outDir (done ++ [(names, bytes)]) s' := by
  have hnames := hfile.isName hs
  obtain ⟨hsound, hwritten, -⟩ := write_grows hp.sound h
  have hafter := hwritten rfl
  have htarget := hp.target_join hfile.1 hnames
  have hstart := hp.start_join hfile.1 hnames
  have hentry : s'.find? (t.target outDir ++ names) = some (.file bytes) := by
    have hfound := congrArg Prod.snd (locate_ok hafter.reached)
    rw [target_congr hafter.working, htarget] at hfound
    exact hfound.symm
  have hothers := hafter.others
  rw [htarget, way_join hfile.1 hnames, hstart] at hothers
  have hkept : ∀ q entry, q ≠ t.target outDir ++ names → s.find? q = some entry →
      s'.find? q = some entry := by
    rw [← htarget]
    exact fun q entry hq hold => hafter.kept hq hold
  refine ⟨hsound, hafter.working.trans hp.working, fun q entry hold => ?_, ?_, fun q entry hq => ?_⟩
  · refine hkept q entry ?_ (hp.kept q entry hold)
    rintro rfl
    rw [hfresh.none_below hs] at hold
    nomatch hold
  · intro names' bytes' hmem
    obtain hbefore | hlast := List.mem_append.mp hmem
    · refine hkept _ _ ?_ (hp.present names' bytes' hbefore)
      rw [ne_eq, List.append_cancel_left_eq]
      exact fun heq => hnew (heq ▸ List.mem_map_of_mem (f := Prod.fst) hbefore)
    · obtain ⟨rfl, rfl⟩ := Prod.mk.inj (List.mem_singleton.mp hlast)
      exact hentry
  · by_cases heq : q = t.target outDir ++ names
    · rw [heq, hentry] at hq
      exact .inr (.inl ⟨names, bytes, by simp, heq, (Option.some.inj hq).symm⟩)
    obtain hsame | ⟨⟨above, habove, hplace⟩, -, hdir⟩ := hothers q heq
    · rw [hsame] at hq
      obtain hold | ⟨names', bytes', hmem, hplace⟩ | ⟨hdir, names', bytes', above, hmem, hway⟩ :=
        hp.new q entry hq
      · exact .inl hold
      · exact .inr (.inl ⟨names', bytes', List.mem_append_left _ hmem, hplace⟩)
      · exact .inr (.inr ⟨hdir, names', bytes', above, List.mem_append_left _ hmem, hway⟩)
    · rw [hdir] at hq
      refine .inr (.inr ⟨(Option.some.inj hq).symm, names, bytes, above, by simp, habove, ?_⟩)
      rw [hplace, resolve_names]
      intro name hname
      obtain hname | hname := List.mem_append.mp (habove.subset hname)
      · exact hfresh.isName hname
      · exact hnames name (List.dropLast_subset _ hname)

/-- The directory holds what was written and no other file. -/
theorem filesBelow (hp : Progress t outDir done s) (hs : t.Sound) (hfresh : t.Fresh outDir)
    (hdone : ∀ file ∈ done, t.FileAt place file.1)
    (hsorted : done.Pairwise fun a b => Path.Before a.1 b.1) : s.filesBelow outDir = done := by
  cases done with
  | nil =>
      -- nothing was written, so the directory has not been made
      unfold FileTree.filesBelow
      split
      · next found hlocate =>
        have hdir := congrArg Prod.snd (locate_ok hlocate)
        rw [target_congr hp.working] at hdir
        obtain hold | ⟨_, _, hmem, _⟩ | ⟨-, _, _, _, hmem, _⟩ := hp.new _ _ hdir.symm
        · have hnone := hfresh.none_below hs []
          rw [List.append_nil, hold] at hnone
          nomatch hnone
        · nomatch hmem
        · nomatch hmem
      · rfl
  | cons first rest =>
      have hfirst := hp.present first.1 first.2 List.mem_cons_self
      have hdir := hp.sound.above hfirst (hdone first List.mem_cons_self).1
      rw [hfresh.target_eq] at hdir
      have hlocate : s.locate outDir = .ok (t.target outDir, some .directory) := by
        unfold locate
        rw [start_congr hp.working, hfresh.target_eq]
        exact follow_of_said (hp.sound.follow_to hdir)
      have hmem : ∀ file, file ∈ s.filesBelow outDir ↔ file ∈ first :: rest := by
        rintro ⟨names, bytes⟩
        rw [mem_filesBelow hp.sound hlocate]
        constructor
        · rintro ⟨-, hfile⟩
          obtain hold | ⟨names', bytes', hmem, hplace, hentry⟩ | ⟨hentry, -⟩ := hp.new _ _ hfile
          · rw [hfresh.none_below hs] at hold
            nomatch hold
          · rw [List.append_cancel_left_eq] at hplace
            rw [hplace, Entry.file.inj hentry]
            exact hmem
          · nomatch hentry
        · intro hmem
          exact ⟨(hdone _ hmem).1, hp.present names bytes hmem⟩
      have hnodup : ∀ {files : List (List String × ByteArray)},
          (files.Pairwise fun a b => Path.Before a.1 b.1) → files.Nodup :=
        fun hfiles => hfiles.imp fun h heq => h.ne (congrArg Prod.fst heq)
      have hbelow := filesBelow_sorted hp.sound outDir
      exact List.Perm.eq_of_pairwise (fun a b _ _ hab hba => absurd hba hab.asymm) hbelow hsorted
        ((List.perm_ext_iff_of_nodup (hnodup hbelow) (hnodup hsorted)).mpr hmem)

end Progress

end FileTree

end TemplateCompiler
