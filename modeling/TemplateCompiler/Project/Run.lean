/-
A run: finding the templates, compiling them, and writing what comes out.

An input that is a file is compiled whatever its name.  Below an input that is a directory
the accepted files are, in order.  All templates are found before the first is compiled,
so that nothing the run writes is taken for a template.  They are compiled one after the
other in the order in which they were found.  The order matters where an output goes to the
path of another output or of a template.

With an output directory, what comes out of a file goes to the place that the file has
below its input, or for an input that is a file, to its name.
-/
import TemplateCompiler.Compile
import TemplateCompiler.Project.Settings

namespace TemplateCompiler

/-- A template with the place of its output. -/
structure Source where
  path : String
  /-- The path from the output directory. -/
  place : String
  deriving DecidableEq

/-- Why a template has no output. -/
inductive FileError
  | unreadable (reason : String)
  | unwritable (path reason : String)
  | uncompiled (error : CompileError)
  deriving DecidableEq

namespace FileError

/-- The name of the kind of error. -/
def code : FileError → String
  | unreadable _ => "read-failed"
  | unwritable .. => "write-failed"
  | uncompiled error => error.code

/-- The error in words. -/
def message : FileError → String
  | unreadable reason => "failed to read file: " ++ reason
  | unwritable path reason => "failed to write " ++ path ++ ": " ++ reason
  | uncompiled error => error.message

end FileError

/-- What became of the output of a template. -/
inductive Emission
  | written (path : String)
  | output (text : String)
  deriving DecidableEq

/-- What became of a template. -/
structure Outcome where
  path : String
  /-- The text of the template; empty if it could not be read. -/
  source : String
  result : Except FileError Emission

namespace Outcome

def isFailure (outcome : Outcome) : Bool :=
  match outcome.result with
  | .ok _ => false
  | .error _ => true

/-- The line and column of an error in the template. -/
def location? (outcome : Outcome) : Option LineCol :=
  match outcome.result with
  | .error (.uncompiled error) => error.location? outcome.source
  | _ => none

end Outcome

namespace Run

variable {m : Type → Type} [Monad m]

/-- The templates of one input. -/
def findIn (disk : Disk m) (settings : Settings) (input : String) : m (List Source) := do
  if ← disk.isFile input then return [⟨input, (Path.fileName? input).getD input⟩]
  else
    let files ← disk.filesBelow input
    let sources := files.map fun names => (⟨Path.join input (Path.ofNames names), Path.ofNames names⟩ : Source)
    return sources.filter fun source => settings.accepts source.path

/-- The templates of all inputs. -/
def findAll (disk : Disk m) (settings : Settings) : m (List Source) := do
  return (← settings.inputs.mapM (findIn disk settings)).flatten

/-- Writes the output of a template, or keeps it to be printed. -/
def emit (disk : Disk m) (outDir : Option String) (source : Source) (output : String) :
    m (Except FileError Emission) := do
  match outDir with
  | none => return .ok (.output output)
  | some dir =>
    let path := Path.join dir source.place
    match ← disk.write path output.toUTF8 with
    | .ok () => return .ok (.written path)
    | .error fault => return .error (.unwritable path fault.message)

/-- Compiles one template. -/
def compileSource (disk : Disk m) (settings : Settings) (outDir : Option String) (source : Source) :
    m Outcome := do
  match ← disk.read source.path with
  | .error fault => return ⟨source.path, "", .error (.unreadable fault.message)⟩
  | .ok bytes =>
    match String.fromUTF8? bytes with
    | none => return ⟨source.path, "", .error (.unreadable "stream did not contain valid UTF-8")⟩
    | some text =>
      match compile text settings.target settings.style with
      | .error error => return ⟨source.path, text, .error (.uncompiled error)⟩
      | .ok output => return ⟨source.path, text, ← emit disk outDir source output⟩

/-- Compiles all templates in the order in which they are found. -/
def run (disk : Disk m) (settings : Settings) (outDir : Option String) : m (List Outcome) := do
  (← findAll disk settings).mapM (compileSource disk settings outDir)

end Run

end TemplateCompiler
