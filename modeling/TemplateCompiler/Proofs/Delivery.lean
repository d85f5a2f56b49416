/-
Where outputs go, over any list of inputs.

An output goes to the place that its template has below its own input.  Each place is a
list of proper names (`Source.Placed`), so two places that differ are two different places
in the tree (`target_ne`), whatever the path of the output directory is.  One step of a run
either writes its output there and leaves every other file as it is, or fails and leaves
all files as they are (`Delivery`).  So what a run writes under a path is still there at
the end unless the run writes under the same path again (`compileAll_kept`): it is the last
one that stays.  The last is the one of the last template, because templates are compiled one
after the other.  Where several are compiled at once, outputs that share a path are written in
any order, and any of them can be the one that stays.

Below one directory no two files have one place (`places_nodup`).  Files of different
inputs can, and then the outputs share a path (`run_collision`).
-/
import TemplateCompiler.Proofs.Runs
import TemplateCompiler.Project.Report

namespace TemplateCompiler

variable {t s s' : FileTree} {settings : Settings} {outDir input : String} {source : Source}
  {outcome : Outcome} {bytes : ByteArray}

/-! ### Places -/

/-- The place is made of proper names. -/
def Source.Placed (source : Source) : Prop :=
  ∃ names, names ≠ [] ∧ (∀ name ∈ names, Path.IsName name) ∧ source.place = Path.ofNames names

/-- A path that leads to a file ends in the name of the file. -/
theorem FileTree.exists_fileName (hs : t.Sound) (h : t.isFile input = true) :
    ∃ name, Path.IsName name ∧ Path.fileName? input = some name := by
  unfold isFile at h
  split at h
  case h_2 => nomatch h
  next place bytes hlocate =>
  obtain ⟨front, name, hpieces⟩ :=
    (Path.pieces input).eq_nil_or_concat.resolve_left (Path.pieces_ne_nil input)
  rw [List.concat_eq_append] at hpieces
  have hfile : some (.file bytes) = t.find? (t.target input) :=
    congrArg Prod.snd (locate_ok hlocate)
  unfold locate at hlocate
  rw [hpieces] at hlocate
  have hdir : t.find? (resolve (t.start input) front) = some .directory :=
    (congrArg Prod.snd (follow_ok (follow_of_concat hlocate))).symm
  have htarget : t.target input = stepTo (resolve (t.start input) front) name := by
    unfold target
    rw [hpieces, resolve_append]
    rfl
  rw [htarget] at hfile
  have hsaid : Path.isSaid name = true := by
    by_contra hnot
    rw [stepTo_of_not_said hnot, hdir] at hfile
    exact file_ne_directory hfile
  have hname : Path.IsName name := by
    obtain ⟨hempty, hdot⟩ := Path.isSaid_iff.mp hsaid
    refine ⟨hempty, hdot, ?_, Path.no_slash_of_mem_pieces (by rw [hpieces]; simp)⟩
    rintro rfl
    rw [stepTo, if_neg (by decide), if_pos rfl, hs.dropLast hdir] at hfile
    exact file_ne_directory hfile
  refine ⟨name, hname, ?_⟩
  have hnames : Path.names input = front.filter Path.isSaid ++ [name] := by
    unfold Path.names
    rw [hpieces, List.filter_append, List.filter_cons_of_pos hsaid, List.filter_nil]
  have hlast : (Path.components input).getLast? = some name := by
    unfold Path.components
    rw [hnames]
    split
    · rw [← List.cons_append, List.getLast?_concat]
    · split
      · rw [← List.cons_append, List.getLast?_concat]
      · rw [List.getLast?_concat]
  have hslash : name ≠ "/" := fun heq => hname.no_slash (by rw [heq]; decide)
  unfold Path.fileName?
  rw [hlast]
  simp [hname.ne_dot, hname.ne_dots, hslash]

theorem FileTree.isName_of_mem_filesBelow (hs : t.Sound) {file : List String × ByteArray}
    (h : file ∈ t.filesBelow input) : file.1 ≠ [] ∧ ∀ name ∈ file.1, Path.IsName name := by
  have hlocate : ∃ place, t.locate input = .ok (place, some .directory) := by
    unfold filesBelow at h
    split at h
    · exact ⟨_, by assumption⟩
    · nomatch h
  obtain ⟨place, hlocate⟩ := hlocate
  obtain ⟨hne, hfile⟩ := (mem_filesBelow hs hlocate).mp h
  exact ⟨hne, fun name hname => hs.isName_of_find? hfile name (List.mem_append_right _ hname)⟩

theorem FileTree.placed_of_mem (hs : t.Sound) (h : source ∈ t.sourcesIn settings input) :
    source.Placed := by
  unfold sourcesIn at h
  split at h
  · next hfile =>
    obtain ⟨name, hname, hfileName⟩ := exists_fileName hs hfile
    rw [List.mem_singleton.mp h, hfileName]
    refine ⟨[name], by simp, by simpa using hname, ?_⟩
    unfold Path.ofNames
    rw [String.intercalate_singleton]
    rfl
  · obtain ⟨hmem, -⟩ := List.mem_filter.mp h
    obtain ⟨file, hfile, rfl⟩ := List.mem_map.mp hmem
    obtain ⟨hne, hnames⟩ := isName_of_mem_filesBelow hs hfile
    exact ⟨file.1, hne, hnames, rfl⟩

/-- Below one input no two templates have one place. -/
theorem FileTree.places_nodup (hs : t.Sound) (settings : Settings) (input : String) :
    ((t.sourcesIn settings input).map Source.place).Nodup := by
  unfold sourcesIn
  split
  · exact List.nodup_singleton _
  · refine List.Nodup.sublist (List.filter_sublist.map _) ?_
    rw [List.map_map, List.Nodup, List.pairwise_map]
    refine (filesBelow_sorted hs input).imp_of_mem fun {a b} ha hb hab heq => hab.ne ?_
    obtain ⟨hne, hnames⟩ := isName_of_mem_filesBelow hs ha
    obtain ⟨hne', hnames'⟩ := isName_of_mem_filesBelow hs hb
    exact Path.ofNames_inj hne hne' hnames hnames' heq

/-- Different places below the output directory are different places in the tree. -/
theorem FileTree.target_ne {a b : Source} (ha : a.Placed) (hb : b.Placed)
    (h : a.place ≠ b.place) :
    t.target (Path.join outDir a.place) ≠ t.target (Path.join outDir b.place) := by
  obtain ⟨names, hne, hnames, hplace⟩ := ha
  obtain ⟨names', hne', hnames', hplace'⟩ := hb
  rw [hplace, hplace', target_join hne hnames, target_join hne' hnames', ne_eq,
    List.append_cancel_left_eq]
  rintro rfl
  exact h (hplace.trans hplace'.symm)

/-! ### One step -/

/-- The path that an outcome says was written. -/
def Outcome.writtenPath? (outcome : Outcome) : Option String :=
  match outcome.result with
  | .ok (.written path) => some path
  | _ => none

/-- What one step of a run does: it writes the output, or fails. -/
inductive Delivery (settings : Settings) (outDir : String) (source : Source) (s s' : FileTree) :
    Outcome → Prop
  | written (text output : String)
      (houtput : compile text settings.target settings.style = .ok output)
      (hwritten : FileTree.Written s s' (Path.join outDir source.place) output.toUTF8) :
      Delivery settings outDir source s s'
        ⟨source.path, text, .ok (.written (Path.join outDir source.place))⟩
  | failed (text : String) (error : FileError)
      (hgrows : FileTree.Grows s s' (s.start (Path.join outDir source.place))
        (FileTree.way (Path.join outDir source.place))) :
      Delivery settings outDir source s s' ⟨source.path, text, .error error⟩

/-- The state after compiling one template, and what it has to do with the state before. -/
theorem delivery_compileSource (hs : s.Sound) (settings : Settings) (outDir : String)
    (source : Source) :
    ((Run.compileSource FileTree.disk settings (some outDir) source).run s).2.Sound ∧
      Delivery settings outDir source s
        ((Run.compileSource FileTree.disk settings (some outDir) source).run s).2
        ((Run.compileSource FileTree.disk settings (some outDir) source).run s).1 := by
  rw [Run.compileSource_run]
  cases s.read source.path with
  | error fault => exact ⟨hs, .failed _ _ (.refl _ _ _)⟩
  | ok bytes =>
      simp only
      cases String.fromUTF8? bytes with
      | none => exact ⟨hs, .failed _ _ (.refl _ _ _)⟩
      | some text =>
          simp only
          cases hcompile : compile text settings.target settings.style with
          | error error => exact ⟨hs, .failed _ _ (.refl _ _ _)⟩
          | ok output =>
              simp only
              cases hwrite : s.write (Path.join outDir source.place) output.toUTF8 with
              | mk s' result =>
                  obtain ⟨hsound, hwritten, hgrows⟩ := FileTree.write_grows hs hwrite
                  cases result with
                  | ok _ => exact ⟨hsound, .written text output hcompile (hwritten rfl)⟩
                  | error fault => exact ⟨hsound, .failed text _ (hgrows nofun)⟩

namespace Delivery

theorem path_eq (h : Delivery settings outDir source s s' outcome) :
    outcome.path = source.path := by
  cases h <;> rfl

/-- Unless the step fails, it writes at the place of its template. -/
theorem writtenPath_eq (h : Delivery settings outDir source s s' outcome) :
    outcome.writtenPath? =
      if outcome.isFailure then none else some (Path.join outDir source.place) := by
  cases h <;> rfl

/-- A file stays unless the step writes under its path. -/
theorem kept (h : Delivery settings outDir source s s' outcome) {path : String}
    (hplaces : s.target path ≠ s.target (Path.join outDir source.place) ∨
      outcome.writtenPath? ≠ some (Path.join outDir source.place))
    (hfile : s.locate path = .ok (s.target path, some (.file bytes))) :
    s'.locate path = .ok (s'.target path, some (.file bytes)) := by
  have hentry : s.find? (s.target path) = some (.file bytes) :=
    (congrArg Prod.snd (FileTree.locate_ok hfile)).symm
  -- either way no directory goes and the file is not touched
  have hsame : s'.working = s.working ∧
      (∀ q, s.find? q = some .directory → s'.find? q = some .directory) ∧
      s'.find? (s.target path) = some (.file bytes) := by
    cases h with
    | failed text error hgrows =>
        exact ⟨hgrows.working, fun q hq => hgrows.kept hq, hgrows.kept hentry⟩
    | written text output houtput hwritten =>
        refine ⟨hwritten.working, fun q hq => hwritten.kept ?_ hq, hwritten.kept ?_ hentry⟩
        · exact fun heq => hwritten.free (heq ▸ hq)
        · exact hplaces.resolve_right fun hnot => hnot rfl
  obtain ⟨hworking, hdirectories, hstays⟩ := hsame
  rw [FileTree.locate_mono hworking hdirectories hfile, hstays, FileTree.target_congr hworking]

end Delivery

/-! ### The whole run -/

/-- A file stays through a run that never writes under its path. -/
theorem compileAll_stays {a : Source} (ha : a.Placed) (sources : List Source)
    (hplaced : ∀ source ∈ sources, source.Placed) (hs : s.Sound)
    (hfile : s.locate (Path.join outDir a.place)
      = .ok (s.target (Path.join outDir a.place), some (.file bytes)))
    (hnot : ∀ outcome ∈ (Run.compileAll settings outDir sources s).1,
      outcome.writtenPath? ≠ some (Path.join outDir a.place)) :
    (Run.compileAll settings outDir sources s).2.read (Path.join outDir a.place) = .ok bytes := by
  induction sources generalizing s with
  | nil => exact FileTree.read_ok hfile
  | cons source sources ih =>
      obtain ⟨hsound, hstep⟩ := delivery_compileSource hs settings outDir source
      rw [Run.compileAll_cons] at hnot ⊢
      refine ih (fun b hb => hplaced b (List.mem_cons_of_mem _ hb)) hsound ?_
        fun outcome hmem => hnot outcome (List.mem_cons_of_mem _ hmem)
      refine hstep.kept ?_ hfile
      by_cases hplace : a.place = source.place
      · rw [← hplace]
        exact .inr (hnot _ List.mem_cons_self)
      · exact .inl (FileTree.target_ne ha (hplaced source List.mem_cons_self) hplace)

/-- What is written last under a path, by the order of the templates, is there after the run. -/
theorem compileAll_kept (settings : Settings) (outDir : String) (sources : List Source)
    (hplaced : ∀ source ∈ sources, source.Placed) (hs : s.Sound)
    (before : List Outcome) (outcome : Outcome) (later : List Outcome) (path : String)
    (hsplit : (Run.compileAll settings outDir sources s).1 = before ++ outcome :: later)
    (hpath : outcome.writtenPath? = some path)
    (hlast : ∀ other ∈ later, other.writtenPath? ≠ some path) :
    ∃ output, compile outcome.source settings.target settings.style = .ok output ∧
      (Run.compileAll settings outDir sources s).2.read path = .ok output.toUTF8 := by
  induction sources generalizing s before with
  | nil =>
      have hnil : [] = before ++ outcome :: later := hsplit
      simp at hnil
  | cons source sources ih =>
      obtain ⟨hsound, hstep⟩ := delivery_compileSource hs settings outDir source
      have hplaced' := fun b hb => hplaced b (List.mem_cons_of_mem source hb)
      rw [Run.compileAll_cons] at hsplit ⊢
      generalize (Run.compileSource FileTree.disk settings (some outDir) source).run s = after
        at hsound hstep hsplit ⊢
      obtain ⟨first, s₁⟩ := after
      cases before with
      | nil =>
          obtain ⟨rfl, rfl⟩ := List.cons.inj hsplit
          cases hstep with
          | failed => nomatch hpath
          | written text output houtput hwritten =>
              obtain rfl := Option.some.inj hpath
              have hreached := hwritten.reached
              rw [← FileTree.target_congr hwritten.working] at hreached
              exact ⟨output, houtput, compileAll_stays (hplaced source List.mem_cons_self) sources
                hplaced' hsound hreached hlast⟩
      | cons _ before =>
          obtain ⟨-, hrest⟩ := List.cons.inj hsplit
          exact ih hplaced' hsound before hrest

/-- The outcome is that of the template, which is written at its place unless it fails. -/
def WrittenAt (outDir : String) (source : Source) (outcome : Outcome) : Prop :=
  outcome.path = source.path ∧ outcome.writtenPath? =
    if outcome.isFailure then none else some (Path.join outDir source.place)

theorem compileAll_outcomes (settings : Settings) (outDir : String) (sources : List Source)
    (hs : s.Sound) :
    List.Forall₂ (WrittenAt outDir) sources (Run.compileAll settings outDir sources s).1 := by
  induction sources generalizing s with
  | nil => exact .nil
  | cons source sources ih =>
      obtain ⟨hsound, hstep⟩ := delivery_compileSource hs settings outDir source
      rw [Run.compileAll_cons]
      exact .cons ⟨hstep.path_eq, hstep.writtenPath_eq⟩ (ih hsound)

theorem writtenPaths_of_no_failure {sources : List Source} {outcomes : List Outcome}
    (h : List.Forall₂ (WrittenAt outDir) sources outcomes)
    (hnone : Report.failures outcomes = 0) :
    outcomes.map Outcome.writtenPath?
      = sources.map fun source => some (Path.join outDir source.place) := by
  unfold Report.failures at hnone
  induction h with
  | nil => rfl
  | @cons source outcome _ _ hhead _ ih =>
      rw [List.countP_cons, Nat.add_eq_zero_iff] at hnone
      have hsuccess : ¬ outcome.isFailure = true := by simpa using hnone.2
      rw [List.map_cons, List.map_cons, ih hnone.1, hhead.2, if_neg hsuccess]

/-- Where a run over any inputs puts its outputs, and which of them are there at the end. -/
structure Delivers (settings : Settings) (t : FileTree) (outDir : String) (sources : List Source)
    (outcomes : List Outcome) (after : FileTree) : Prop where
  /-- What the run compiles is what was found. -/
  discovered : ((Run.findAll FileTree.disk settings).run t).1 = sources
  /-- Each template is written at its place below the output directory, unless it fails. -/
  outcomes_at : List.Forall₂ (WrittenAt outDir) sources outcomes
  /-- Below one input no two templates have the same place. -/
  apart : ∀ input ∈ settings.inputs, ((t.sourcesIn settings input).map Source.place).Nodup
  /-- Templates with different places are written to different places of the tree. -/
  distinct : ∀ a ∈ sources, ∀ b ∈ sources, a.place ≠ b.place →
    Path.join outDir a.place ≠ Path.join outDir b.place ∧
      t.target (Path.join outDir a.place) ≠ t.target (Path.join outDir b.place)
  /-- What is written last under a path is there at the end.  Last is by the order of the templates,
  which are compiled one after the other; where several are compiled at once, any output that
  shares the path can be the one that is there. -/
  kept : ∀ before outcome later path, outcomes = before ++ outcome :: later →
    outcome.writtenPath? = some path → (∀ other ∈ later, other.writtenPath? ≠ some path) →
    ∃ output, compile outcome.source settings.target settings.style = .ok output ∧
      after.read path = .ok output.toUTF8
  /-- If all places are different and nothing fails, there is an output for each template. -/
  complete : (sources.map Source.place).Nodup → Report.failures outcomes = 0 →
    (outcomes.map Outcome.writtenPath?).Nodup ∧ ∀ outcome ∈ outcomes, ∃ path output,
      outcome.writtenPath? = some path ∧
      compile outcome.source settings.target settings.style = .ok output ∧
      after.read path = .ok output.toUTF8

/-- Where a run over any inputs puts its outputs. -/
theorem Run.run_delivers (t : FileTree) (settings : Settings) (outDir : String) (hs : t.Sound) :
    Delivers settings t outDir (settings.inputs.flatMap (t.sourcesIn settings))
      ((Run.run FileTree.disk settings (some outDir)).run t).1
      ((Run.run FileTree.disk settings (some outDir)).run t).2 := by
  have hplaced : ∀ source ∈ settings.inputs.flatMap (t.sourcesIn settings), source.Placed := by
    intro source hsource
    obtain ⟨input, -, hmem⟩ := List.mem_flatMap.mp hsource
    exact FileTree.placed_of_mem hs hmem
  have houtcomes := compileAll_outcomes settings outDir
    (settings.inputs.flatMap (t.sourcesIn settings)) hs
  have hkept := compileAll_kept settings outDir _ hplaced hs
  rw [← Run.run_eq_compileAll] at houtcomes hkept
  refine ⟨by rw [Run.findAll_run], houtcomes,
    fun input _ => FileTree.places_nodup hs settings input,
    fun a ha b hb hab => ⟨fun heq => hab (Path.join_inj heq),
      FileTree.target_ne (hplaced a ha) (hplaced b hb) hab⟩, hkept, fun hnodup hnone => ?_⟩
  have hpaths := writtenPaths_of_no_failure houtcomes hnone
  have hdistinct : ((((Run.run FileTree.disk settings (some outDir)).run t).1).map
      Outcome.writtenPath?).Nodup := by
    rw [hpaths, List.Nodup, List.pairwise_map]
    rw [List.Nodup, List.pairwise_map] at hnodup
    exact hnodup.imp fun hab heq => hab (Path.join_inj (Option.some.inj heq))
  refine ⟨hdistinct, fun outcome hmem => ?_⟩
  obtain ⟨before, later, hsplit⟩ := List.append_of_mem hmem
  have hwritten := List.mem_map_of_mem (f := Outcome.writtenPath?) hmem
  rw [hpaths] at hwritten
  obtain ⟨source, -, hpath⟩ := List.mem_map.mp hwritten
  rw [hsplit, List.map_append, List.map_cons, List.nodup_append] at hdistinct
  obtain ⟨-, hrest, -⟩ := hdistinct
  obtain ⟨output, houtput, hread⟩ := hkept before outcome later _ hsplit hpath.symm
    fun other hother heq => (List.nodup_cons.mp hrest).1
      (List.mem_map.mpr ⟨other, hother, heq.trans hpath⟩)
  exact ⟨_, output, hpath.symm, houtput, hread⟩

/-- A directory, a file of another one, and a template that is found twice. -/
theorem Run.run_delivers_overlapping :
    let t := FileTree.ofFiles [("a/x.cml", "<view></view>".toUTF8),
      ("b/c/y.cml", "<text></text>".toUTF8)]
    let settings : Settings := {
      inputs := ["a", "b/c/y.cml", "b"], target := .wx, style := none,
      extensions := Settings.defaultExtensions, ignorePatterns := [], ignore := [] }
    t.Sound ∧ Delivers settings t "a/out" (settings.inputs.flatMap (t.sourcesIn settings))
      ((Run.run FileTree.disk settings (some "a/out")).run t).1
      ((Run.run FileTree.disk settings (some "a/out")).run t).2 := by
  intro t settings
  exact ⟨FileTree.sound_ofFiles _, Run.run_delivers t settings "a/out" (FileTree.sound_ofFiles _)⟩

/-- Two files of one name in two directories are two templates without a failure, and both
outputs are said to be written, but under one path. -/
theorem Run.run_collision :
    let t := FileTree.ofFiles [("a/x.cml", "<view></view>".toUTF8),
      ("b/x.cml", "<view></view>".toUTF8)]
    let settings : Settings := {
      inputs := ["a/x.cml", "b/x.cml"], target := .wx, style := none,
      extensions := Settings.defaultExtensions, ignorePatterns := [], ignore := [] }
    t.target "a/x.cml" ≠ t.target "b/x.cml" ∧
      ((Run.run FileTree.disk settings (some "out")).run t).1.map
          (fun outcome => (outcome.path, outcome.writtenPath?))
        = [("a/x.cml", some "out/x.cml"), ("b/x.cml", some "out/x.cml")] := by
  decide +kernel

end TemplateCompiler
