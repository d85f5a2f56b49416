/-
A run over a tree of files, as a function.

Finding the templates changes nothing (`findAll_run`), so all of them are found in the tree
that the run begins with.  Compiling then goes from template to template and from tree to
tree (`compileAll_cons`), and one template either is read and compiled and written, or ends
in one of four errors (`compileSource_run`); only a write changes the tree.
-/
import TemplateCompiler.Proofs.Walk
import TemplateCompiler.Project.Run

namespace TemplateCompiler

variable {t : FileTree} {settings : Settings} {outDir : String} {source : Source}

/-- The template that is a file below an input. -/
def Source.below (input : String) (names : List String) : Source :=
  ⟨Path.join input (Path.ofNames names), Path.ofNames names⟩

/-- The templates of one input in a tree. -/
def FileTree.sourcesIn (t : FileTree) (settings : Settings) (input : String) : List Source :=
  if t.isFile input then [⟨input, (Path.fileName? input).getD input⟩]
  else ((t.filesBelow input).map fun file => Source.below input file.1).filter
    fun source => settings.accepts source.path

namespace Run

theorem findIn_run (input : String) :
    (findIn FileTree.disk settings input).run t = (t.sourcesIn settings input, t) := by
  have hlook : (findIn FileTree.disk settings input).run t
      = (if t.isFile input then
          (pure [⟨input, (Path.fileName? input).getD input⟩] : StateM FileTree (List Source))
        else pure ((((t.filesBelow input).map Prod.fst).map (Source.below input)).filter
          fun source => settings.accepts source.path)).run t := by
    unfold findIn FileTree.disk
    simp only [StateT.run_bind, StateT.run_get, pure_bind, bind_assoc]
    split <;> rfl
  rw [hlook]
  unfold FileTree.sourcesIn
  split
  · rfl
  · rw [List.map_map]
    rfl

/-- One element after the other, from state to state. -/
theorem mapM_run_cons {σ α β : Type} (f : α → StateM σ β) (a : α) (as : List α) (s : σ) :
    ((a :: as).mapM f).run s =
      (((f a).run s).1 :: ((as.mapM f).run ((f a).run s).2).1,
        ((as.mapM f).run ((f a).run s).2).2) := by
  rw [List.mapM_cons]
  rfl

theorem findAll_run :
    (findAll FileTree.disk settings).run t
      = (settings.inputs.flatMap (t.sourcesIn settings), t) := by
  have hinputs : ∀ inputs : List String, (inputs.mapM (findIn FileTree.disk settings)).run t
      = (inputs.map (t.sourcesIn settings), t) := by
    intro inputs
    induction inputs with
    | nil => rfl
    | cons input inputs ih => rw [mapM_run_cons, findIn_run, ih, List.map_cons]
  have hflatten : (findAll FileTree.disk settings).run t
      = ((((settings.inputs.mapM (findIn FileTree.disk settings)).run t).1).flatten,
        ((settings.inputs.mapM (findIn FileTree.disk settings)).run t).2) := rfl
  rw [hflatten, hinputs, List.flatMap_def]

/-- Compiles templates one after the other. -/
def compileAll (settings : Settings) (outDir : String) (sources : List Source) (t : FileTree) :
    List Outcome × FileTree :=
  (sources.mapM (compileSource FileTree.disk settings (some outDir))).run t

theorem run_eq_compileAll :
    (run FileTree.disk settings (some outDir)).run t
      = compileAll settings outDir (settings.inputs.flatMap (t.sourcesIn settings)) t := by
  have hfound : (run FileTree.disk settings (some outDir)).run t
      = compileAll settings outDir ((findAll FileTree.disk settings).run t).1
        ((findAll FileTree.disk settings).run t).2 := rfl
  rw [hfound, findAll_run]

theorem disk_write_run (path : String) (bytes : ByteArray) :
    (FileTree.disk.write path bytes).run t = ((t.write path bytes).2, (t.write path bytes).1) :=
  rfl

/-- What becomes of one template, and of the tree. -/
theorem compileSource_run :
    (compileSource FileTree.disk settings (some outDir) source).run t =
      match t.read source.path with
      | .error fault => (⟨source.path, "", .error (.unreadable fault.message)⟩, t)
      | .ok bytes =>
        match String.fromUTF8? bytes with
        | none =>
          (⟨source.path, "", .error (.unreadable "stream did not contain valid UTF-8")⟩, t)
        | some text =>
          match compile text settings.target settings.style with
          | .error error => (⟨source.path, text, .error (.uncompiled error)⟩, t)
          | .ok output =>
            match t.write (Path.join outDir source.place) output.toUTF8 with
            | (t', .ok ()) =>
              (⟨source.path, text, .ok (.written (Path.join outDir source.place))⟩, t')
            | (t', .error fault) =>
              (⟨source.path, text,
                .error (.unwritable (Path.join outDir source.place) fault.message)⟩, t') := by
  have hread : (compileSource FileTree.disk settings (some outDir) source).run t
      = (match t.read source.path with
        | .error fault => pure ⟨source.path, "", .error (.unreadable fault.message)⟩
        | .ok bytes =>
          match String.fromUTF8? bytes with
          | none =>
            pure ⟨source.path, "", .error (.unreadable "stream did not contain valid UTF-8")⟩
          | some text =>
            match compile text settings.target settings.style with
            | .error error => pure ⟨source.path, text, .error (.uncompiled error)⟩
            | .ok output => do
              return ⟨source.path, text, ← emit FileTree.disk (some outDir) source output⟩ :
          StateM FileTree Outcome).run t := rfl
  rw [hread]
  split
  · rfl
  · split
    · rfl
    · split
      · rfl
      · next output _ =>
        have hwrite : (emit FileTree.disk (some outDir) source output).run t
            = match t.write (Path.join outDir source.place) output.toUTF8 with
              | (t', .ok ()) => (.ok (.written (Path.join outDir source.place)), t')
              | (t', .error fault) =>
                (.error (.unwritable (Path.join outDir source.place) fault.message), t') := by
          unfold emit
          rw [StateT.run_bind, disk_write_run]
          obtain ⟨t', result⟩ := t.write (Path.join outDir source.place) output.toUTF8
          cases result <;> rfl
        rw [StateT.run_bind, hwrite]
        split <;> rfl

theorem compileAll_cons (sources : List Source) :
    compileAll settings outDir (source :: sources) t =
      let (outcome, t₁) := (compileSource FileTree.disk settings (some outDir) source).run t
      let (outcomes, t₂) := compileAll settings outDir sources t₁
      (outcome :: outcomes, t₂) :=
  mapM_run_cons _ _ _ _

end Run

end TemplateCompiler
