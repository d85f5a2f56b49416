/-
The settings of a run.

They come from the command line and from a file of options.  The command line wins where
both name a platform, and patterns of files to be ignored are taken from both, after those
that are always ignored.  What is wrong is reported in the order in which the settings are
put together: the file, the platform, the patterns.
-/
import TemplateCompiler.Error
import TemplateCompiler.Glob.Matching
import TemplateCompiler.Json.Reading
import TemplateCompiler.Project.CommandLine
import TemplateCompiler.Project.Disk
import TemplateCompiler.Style.Reading
import TemplateCompiler.Target

namespace TemplateCompiler

/-- Why there are no settings. -/
inductive SettingsError
  | unreadableFile (path : String)
  | invalidFile (path : String)
  | noTarget
  | unknownTarget (name : String)
  | badPattern (pattern : String)
  deriving DecidableEq

namespace SettingsError

/-- The error in words. -/
def message : SettingsError → String
  | unreadableFile path => "Failed to read config " ++ path
  | invalidFile path => "Invalid config " ++ path
  | noTarget =>
    "No target platform given; pass --target or set \"target\" in the config file"
  | unknownTarget name => (CompileError.unknownTarget name).message
  | badPattern pattern => "Invalid ignore pattern `" ++ pattern ++ "`"

end SettingsError

/-- The options that a file gives. -/
structure OptionFile where
  target : Option String
  style : Option StyleConfig
  extensions : Option (List String)
  ignore : List String

namespace OptionFile

/-- The options when there is no file. -/
def empty : OptionFile := ⟨none, none, none, []⟩

/-- The options that a value gives.  No other keys are allowed, and as an array the record
has all fields but perhaps the last. -/
def ofJson? (value : Json.Value) : Option OptionFile :=
  match Json.RecordShape.read? ⟨["target", "cmss", "extensions", "ignore"], false, 3⟩ value with
  | some [target, style, extensions, ignore] => do
    return ⟨← Json.optional Json.Value.text? target, ← Json.optional StyleConfig.ofJson? style,
      ← Json.optional Json.Value.texts? extensions, ← Json.withDefault [] Json.Value.texts? ignore⟩
  | _ => none

/-- The options that the bytes of a file give. -/
def ofBytes (path : String) (bytes : ByteArray) : Except SettingsError OptionFile :=
  match String.fromUTF8? bytes with
  | none => .error (.unreadableFile path)
  | some text =>
    match (Json.parse? text).bind ofJson? with
    | some options => .ok options
    | none => .error (.invalidFile path)

end OptionFile

/-- All that a run is to do. -/
structure Settings where
  inputs : List String
  target : Target
  style : Option StyleConfig
  /-- The extensions of templates, with their dots. -/
  extensions : List String
  /-- The patterns of files to be ignored, as they are written. -/
  ignorePatterns : List String
  ignore : List Glob

namespace Settings

/-- The extensions of templates, unless others are given. -/
def defaultExtensions : List String := [".cml", ".html"]

/-- The patterns that are always ignored. -/
def defaultIgnore : List String := ["**/node_modules/**", "**/dist/**", "**/.git/**"]

/-- Reads the patterns in order. -/
def parsePatterns (patterns : List String) : Except SettingsError (List Glob) :=
  patterns.mapM fun pattern =>
    match Glob.parse? pattern with
    | some glob => .ok glob
    | none => .error (.badPattern pattern)

/-- The platform, from the command line or else from the file. -/
def chooseTarget (line : CommandLine) (options : OptionFile) : Except SettingsError Target :=
  match line.target <|> options.target with
  | none => .error .noTarget
  | some name =>
    match Target.ofName? name with
    | some target => .ok target
    | none => .error (.unknownTarget name)

/-- Puts the settings together. -/
def resolve (line : CommandLine) (options : OptionFile) : Except SettingsError Settings := do
  let target ← chooseTarget line options
  let ignorePatterns := defaultIgnore ++ options.ignore ++ line.ignore
  let ignore ← parsePatterns ignorePatterns
  return {
    inputs := line.inputsInUse
    target
    style := options.style
    extensions := options.extensions.getD defaultExtensions
    ignorePatterns
    ignore }

/-- Reads the file of options, if there is to be one, and puts the settings together. -/
def load {m : Type → Type} [Monad m] (disk : Disk m) (line : CommandLine) :
    m (Except SettingsError Settings) := do
  match line.config with
  | none => return resolve line .empty
  | some path =>
    match ← disk.read path with
    | .error _ => return .error (.unreadableFile path)
    | .ok bytes => return (OptionFile.ofBytes path bytes).bind (resolve line)

/-- A file that is found in a directory is a template, and is not to be ignored. -/
def accepts (settings : Settings) (path : String) : Bool :=
  settings.extensions.contains (Path.dotExtension path) &&
    !settings.ignore.any fun glob => glob.matchesPath path

end Settings

end TemplateCompiler
