/-
The command line.

Arguments are read from left to right.  An option that is written together with its value
takes effect at once.  A value that stands in an argument of its own is only noted, and so
are inputs; what is noted takes effect when the next option or input is met, or at the end.
This decides which of two errors is reported: an argument that is no option at all, or a
switch with a value, hides what is wrong with the value noted before it, and a value that
is wrong hides everything after the next proper option.

An argument that begins with a hyphen and is more than that is never a value.  After `--`
all arguments are inputs.
-/
import TemplateCompiler.Text.Search

namespace TemplateCompiler

/-- The form of what is printed. -/
inductive OutputFormat
  | human
  | json
  deriving DecidableEq, Inhabited

namespace OutputFormat

def name : OutputFormat → String
  | human => "human"
  | json => "json"

def ofName? (name : String) : Option OutputFormat :=
  [human, json].find? fun format => format.name == name

end OutputFormat

/-- Why a command line is not followed. -/
inductive UsageError
  | unknownArgument
  /-- A value is missing, empty, or not among those allowed. -/
  | invalidValue
  /-- An option that may be given once is given twice. -/
  | repeatedOption
  /-- A switch is given a value. -/
  | unneededValue
  | helpRequested
  | versionRequested
  deriving DecidableEq

/-- What the command line says. -/
structure CommandLine where
  inputs : List String
  target : Option String
  config : Option String
  outDir : Option String
  output : Option OutputFormat
  ignore : List String
  verbose : Bool
  deriving DecidableEq

namespace CommandLine

/-! ### Options -/

/-- The options that take a value. -/
inductive ValueOption
  | target
  | config
  | outDir
  | output
  | ignore
  deriving DecidableEq

/-- The options that take none. -/
inductive Switch
  | verbose
  | help
  | version
  deriving DecidableEq

/-- An option. -/
inductive Flag
  | valued (option : ValueOption)
  | switch (s : Switch)
  deriving DecidableEq

/-- The option of a name written after two hyphens. -/
def longFlag? : String → Option Flag
  | "target" => some (.valued .target)
  | "config" => some (.valued .config)
  | "out-dir" => some (.valued .outDir)
  | "output" => some (.valued .output)
  | "ignore" => some (.valued .ignore)
  | "verbose" => some (.switch .verbose)
  | "help" => some (.switch .help)
  | "version" => some (.switch .version)
  | _ => none

/-- The option of a letter written after one hyphen. -/
def shortFlag? : Char → Option Flag
  | 't' => some (.valued .target)
  | 'c' => some (.valued .config)
  | 'o' => some (.valued .outDir)
  | 'v' => some (.switch .verbose)
  | 'h' => some (.switch .help)
  | 'V' => some (.switch .version)
  | _ => none

/-! ### Taking effect -/

/-- What has been noted and has not taken effect. -/
inductive Pending
  | nothing
  /-- An option with its value, once that is known. -/
  | option (o : ValueOption) (value : Option String)
  | inputs (paths : List String)
  deriving DecidableEq

/-- The state of reading. -/
structure State where
  line : CommandLine
  pending : Pending
  deriving DecidableEq

/-- Nothing has been read. -/
def State.start : State := ⟨⟨[], none, none, none, none, [], false⟩, .nothing⟩

/-- A path in an argument; it may not be empty. -/
def path (value : String) : Except UsageError String :=
  if value.isEmpty then .error .invalidValue else .ok value

/-- Fails if the option has been given. -/
def once {α : Type} (given : Option α) : Except UsageError Unit :=
  if given.isSome then .error .repeatedOption else .ok ()

/-- Gives an option its value. -/
def assign (line : CommandLine) (option : ValueOption) (value : String) :
    Except UsageError CommandLine :=
  match option with
  | .target => do
    once line.target
    return { line with target := some value }
  | .config => do
    once line.config
    return { line with config := some (← path value) }
  | .outDir => do
    once line.outDir
    return { line with outDir := some (← path value) }
  | .output => do
    once line.output
    match OutputFormat.ofName? value with
    | some format => return { line with output := some format }
    | none => throw .invalidValue
  | .ignore => return { line with ignore := line.ignore ++ [value] }

namespace State

/-- Lets what has been noted take effect. -/
def settle (s : State) : Except UsageError State :=
  match s.pending with
  | .nothing => .ok s
  | .option _ none => .error .invalidValue
  | .option option (some value) => (assign s.line option value).map fun line => ⟨line, .nothing⟩
  | .inputs paths =>
    (paths.mapM path).map fun paths =>
      ⟨{ s.line with inputs := s.line.inputs ++ paths }, .nothing⟩

/-- Turns a switch. -/
def turn (s : State) (switch : Switch) : Except UsageError State := do
  let s ← s.settle
  match switch with
  | .verbose =>
    if s.line.verbose then throw .repeatedOption
    else return { s with line := { s.line with verbose := true } }
  | .help => throw .helpRequested
  | .version => throw .versionRequested

/-- Gives an option the value that is written together with it. -/
def assignNow (s : State) (option : ValueOption) (value : String) : Except UsageError State := do
  let s ← s.settle
  return ⟨← assign s.line option value, .nothing⟩

/-- Notes an option whose value is still to come. -/
def expect (s : State) (option : ValueOption) : Except UsageError State := do
  let s ← s.settle
  return { s with pending := .option option none }

/-- Notes an input. -/
def addInput (s : State) (value : String) : Except UsageError State :=
  match s.pending with
  | .inputs paths => .ok { s with pending := .inputs (paths ++ [value]) }
  | _ => s.settle.map fun s => { s with pending := .inputs [value] }

/-- Notes an argument that is no option. -/
def addPlain (s : State) (value : String) : Except UsageError State :=
  match s.pending with
  | .option option none => .ok { s with pending := .option option (some value) }
  | _ => s.addInput value

/-! ### Reading -/

/-- An option after two hyphens, with a value after an equals sign if there is one. -/
def readLong (s : State) (text : List Char) : Except UsageError State :=
  let (name, value) :=
    match Text.cutChars ['='] text with
    | some (name, value) => (name, some (String.ofList value))
    | none => (text, none)
  match longFlag? (String.ofList name), value with
  | none, _ => .error .unknownArgument
  | some (.switch _), some _ => .error .unneededValue
  | some (.switch switch), none => s.turn switch
  | some (.valued option), some value => s.assignNow option value
  | some (.valued option), none => s.expect option

/-- Letters after one hyphen.  The first option among them that takes a value has what
follows it for one, less an equals sign. -/
def readShort (s : State) : List Char → Except UsageError State
  | [] => .ok s
  | c :: rest =>
    match shortFlag? c with
    | none => .error .unknownArgument
    | some (.switch switch) => do readShort (← s.turn switch) rest
    | some (.valued option) =>
      match rest with
      | [] => s.expect option
      | '=' :: value => s.assignNow option (String.ofList value)
      | value => s.assignNow option (String.ofList value)

/-- An argument before any `--`. -/
def readArgument (s : State) (argument : String) : Except UsageError State :=
  match argument.toList with
  | '-' :: '-' :: text => s.readLong text
  | '-' :: c :: rest => s.readShort (c :: rest)
  | _ => s.addPlain argument

/-- The arguments to the end. -/
def readAll (s : State) : List String → Except UsageError State
  | [] => s.settle
  | argument :: rest =>
    if argument = "--" then do
      let s ← rest.foldlM addInput s
      s.settle
    else do readAll (← s.readArgument argument) rest

end State

/-- Reads the arguments. -/
def parse (arguments : List String) : Except UsageError CommandLine :=
  (State.start.readAll arguments).map State.line

/-! ### Values in use -/

/-- The inputs; the working directory if none are given. -/
def inputsInUse (line : CommandLine) : List String :=
  if line.inputs.isEmpty then ["."] else line.inputs

def outputInUse (line : CommandLine) : OutputFormat := line.output.getD .human

end CommandLine

end TemplateCompiler
