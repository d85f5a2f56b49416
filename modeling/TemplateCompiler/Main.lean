/-
The command line program.

This is the outer layer: it looks at the arguments, hands the files of the machine to the
run as a `Disk`, prints the report and answers with a number that says whether all went
well.  Everything that is decided is decided elsewhere.
-/
import TemplateCompiler.Project.Report

namespace TemplateCompiler

namespace Machine

/-- A path as the system's own kind of path. -/
def entryAt (path : String) : IO.FS.DirEntry := { root := path, fileName := "" }

/-- The fault that an error of the system stands for. -/
def faultOf : IO.Error → DiskFault
  | .noFileOrDirectory .. => .notFound
  | .alreadyExists .. => .alreadyThere
  | error => .other (toString error)

/-- The result of an operation, or the fault that it met. -/
def attempt {α : Type} (operation : IO α) : IO (Except DiskFault α) := do
  try
    return .ok (← operation)
  catch error =>
    return .error (faultOf error)

/-- The files below a directory in order of their names. -/
partial def filesBelow (path : String) : IO (List (List String)) := do
  if !(← (entryAt path).root.isDir) then return []
  let listing ← attempt (entryAt path).root.readDir
  match listing with
  | .error _ => return []
  | .ok entries =>
    let names := (entries.toList.map IO.FS.DirEntry.fileName).mergeSort
      fun a b => decide (Path.bytes a ≤ Path.bytes b)
    let found ← names.mapM fun name => do
      let inner := Path.join path name
      if ← (entryAt inner).root.isDir then
        return (← filesBelow inner).map (name :: ·)
      else return [[name]]
    return found.flatten

/-- Writes a file, and makes the directories that it needs. -/
def write (path : String) (bytes : ByteArray) : IO Unit := do
  let above := (Path.components path).dropLast
  if !above.isEmpty then IO.FS.createDirAll (Path.ofNames above)
  IO.FS.writeBinFile path bytes

/-- The files of the machine. -/
def disk : Disk IO where
  isFile path := return (← (entryAt path).root.pathExists) && !(← (entryAt path).root.isDir)
  filesBelow := filesBelow
  read path := attempt (IO.FS.readBinFile path)
  write path bytes := attempt (write path bytes)

end Machine

/-- How the program is called. -/
def usageText : String :=
  "Compile templates for one target platform\n\n" ++
  "Usage: template-compiler [OPTIONS] [INPUTS]...\n\n" ++
  "  -t, --target <TARGET>    Target platform: web, weex, wx, alipay or baidu\n" ++
  "  -c, --config <CONFIG>    Path to a JSON config file\n" ++
  "  -o, --out-dir <OUT_DIR>  Write compiled templates here instead of stdout\n" ++
  "      --output <OUTPUT>    Output format: human or json\n" ++
  "      --ignore <IGNORE>    Ignore patterns (glob)\n" ++
  "  -v, --verbose            Verbose output\n" ++
  "  -h, --help               Print help\n" ++
  "  -V, --version            Print version"

/-- What is wrong with the command line, in words. -/
def UsageError.message : UsageError → String
  | unknownArgument => "unexpected argument found"
  | invalidValue => "a value is missing or invalid"
  | repeatedOption => "an option cannot be used multiple times"
  | unneededValue => "unexpected value for an option that takes none"
  | helpRequested => usageText
  | versionRequested => "template-compiler 0.1.0"

/-- Prints what a run reports. -/
def printReport (report : Report) : IO Unit := do
  for line in report.stdout do IO.println line
  for line in report.stderr do IO.eprintln line

/-- Carries out what the command line says. -/
def execute (line : CommandLine) : IO UInt32 := do
  let started ← IO.monoMsNow
  match ← Settings.load Machine.disk line with
  | .error error =>
    IO.eprintln ("Error: " ++ error.message)
    return 1
  | .ok settings =>
    let outcomes ← Run.run Machine.disk settings line.outDir
    let elapsed := (← IO.monoMsNow) - started
    printReport (Report.ofOutcomes line.outputInUse outcomes (some elapsed))
    return if Report.failures outcomes = 0 then 0 else 1

end TemplateCompiler

open TemplateCompiler in
def main (arguments : List String) : IO UInt32 := do
  match CommandLine.parse arguments with
  | .ok line => execute line
  | .error error =>
    if error = .helpRequested ∨ error = .versionRequested then
      IO.println error.message
      return 0
    else
      IO.eprintln ("error: " ++ error.message ++ "\n\n" ++ usageText)
      return 2
