/-
A run over one directory mirrors it.

All templates are found before the first is compiled, and what the run writes goes to a
directory that was not there.  So nothing it writes changes what it reads: each template
is compiled as the tree had it at first (`compileAll_mirrors`), and whether one fails has
no bearing on the others.  The output directory ends up with the outputs of those that did
not fail, each under the names of its template, and with no other file.
-/
import TemplateCompiler.Proofs.Output
import TemplateCompiler.Proofs.Reporting
import TemplateCompiler.Proofs.Runs

namespace TemplateCompiler

variable {t s : FileTree} {settings : Settings} {dir outDir : String} {place : List String}

namespace Settings

/-- What the bytes of a file compile to; nothing if they are no text or it is rejected. -/
def output? (settings : Settings) (bytes : ByteArray) : Option String :=
  (String.fromUTF8? bytes).bind fun text =>
    (compile text settings.target settings.style).toOption

/-- The outputs of files, under the same names. -/
def outputs (settings : Settings) (files : List (List String × ByteArray)) :
    List (List String × ByteArray) :=
  files.filterMap fun file =>
    (settings.output? file.2).map fun output => (file.1, output.toUTF8)

/-- What becomes of a file below a directory. -/
def outcomeOf (settings : Settings) (dir outDir : String) (file : List String × ByteArray) :
    Outcome :=
  let path := Path.join dir (Path.ofNames file.1)
  match String.fromUTF8? file.2 with
  | none => ⟨path, "", .error (.unreadable "stream did not contain valid UTF-8")⟩
  | some text =>
    match compile text settings.target settings.style with
    | .error error => ⟨path, text, .error (.uncompiled error)⟩
    | .ok _ => ⟨path, text, .ok (.written (Path.join outDir (Path.ofNames file.1)))⟩

end Settings

/-- What a run over one directory finds, reports and leaves behind. -/
structure Mirrors (settings : Settings) (t : FileTree) (dir outDir : String)
    (found : List (List String × ByteArray)) (outcomes : List Outcome) (after : FileTree) :
    Prop where
  /-- What the run compiles is what was found. -/
  discovered : ((Run.findAll FileTree.disk settings).run t).1
    = found.map fun file => Source.below dir file.1
  /-- What was found are the accepted files below the directory. -/
  mem_found : ∀ place, t.locate dir = .ok (place, some .directory) → ∀ names bytes,
    (names, bytes) ∈ found ↔ names ≠ [] ∧ t.find? (place ++ names) = some (.file bytes) ∧
      settings.accepts (Path.join dir (Path.ofNames names)) = true
  /-- They are in the order of their names, each once. -/
  ordered : found.Pairwise fun a b => a.1.map Path.bytes < b.1.map Path.bytes
  /-- Each is compiled on its own. -/
  outcomes_eq : outcomes = found.map (settings.outcomeOf dir outDir)
  count : outcomes.length = found.length
  errors : Report.failures outcomes
    = found.countP fun file => (settings.output? file.2).isNone
  /-- As JSON there is a line for each, and one for the run. -/
  lines : ∀ milliseconds, ∃ lines summary,
    (Report.ofOutcomes .json outcomes milliseconds).stdout = lines ++ [summary] ∧
      List.Forall₂ (fun file line => Report.FileLine (Path.join dir (Path.ofNames file.1))
        (settings.output? file.2).isNone line) found lines ∧
      Report.SummaryLine found.length
        (found.countP fun file => (settings.output? file.2).isNone) summary
  /-- The output directory holds the outputs, and no other file. -/
  written : after.filesBelow outDir = settings.outputs found

end TemplateCompiler
