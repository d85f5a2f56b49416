/-
What a run prints.

For people, output goes to the one stream and messages to the other: a line for each file
that was written or failed, and a summary.  As JSON, everything is a line with one object
on the first stream, its members in the order of their keys, and the summary is the last.
A duration that is not measured is left out of the object and shown to people as a low line.
-/
import TemplateCompiler.Json.Printing
import TemplateCompiler.Project.Run

namespace TemplateCompiler

/-- The two streams that are printed to. -/
structure Report where
  stdout : List String
  stderr : List String
  deriving DecidableEq

namespace Report

/-- One report after the other. -/
def append (a b : Report) : Report := ⟨a.stdout ++ b.stdout, a.stderr ++ b.stderr⟩

/-- The number of failures. -/
def failures (outcomes : List Outcome) : Nat := outcomes.countP Outcome.isFailure

/-- Text between the marks that colour it. -/
def colored (code text : String) : String := "\x1b[" ++ code ++ "m" ++ text ++ "\x1b[0m"

/-- A count with the word for what is counted. -/
def countFiles (n : Nat) : String := toString n ++ " file" ++ if n = 1 then "" else "s"

/-! ### For people -/

/-- The path of a file with the place of its error. -/
def locationText (outcome : Outcome) : String :=
  match outcome.location? with
  | some position =>
    outcome.path ++ ":" ++ toString position.line ++ ":" ++ toString position.col
  | none => outcome.path

/-- What is said of one file. -/
def humanFile (outcome : Outcome) : Report :=
  match outcome.result with
  | .ok (.written path) => ⟨[], [outcome.path ++ " -> " ++ path]⟩
  | .ok (.output text) => ⟨[text], []⟩
  | .error error =>
    ⟨[], [locationText outcome ++ ": " ++ colored "31" "error" ++ "[" ++ error.code ++ "]: " ++
      error.message]⟩

/-- The last words. -/
def humanSummary (outcomes : List Outcome) (milliseconds : Option Nat) : Report :=
  let count := outcomes.length
  let failed := failures outcomes
  let duration := match milliseconds with
    | some n => toString n
    | none => "_"
  let line :=
    if failed = 0 then colored "32" "✓" ++ " Compiled " ++ countFiles count ++ " (" ++ duration ++ "ms)"
    else colored "31" "✗" ++ " " ++ toString failed ++ " of " ++ countFiles count ++ " failed"
  ⟨[], ["", line]⟩

/-! ### As JSON -/

/-- A number that may be missing. -/
def naturalOrNull : Option Nat → Json.Scalar
  | some n => .natural n
  | none => .null

/-- The object for one file. -/
def jsonFile (outcome : Outcome) : Report :=
  let path := ("file", Json.Scalar.text outcome.path)
  let members :=
    match outcome.result with
    | .ok (.written target) => [path, ("type", .text "file"), ("written", .text target)]
    | .ok (.output text) => [path, ("output", .text text), ("type", .text "file")]
    | .error error =>
      let position := outcome.location?
      [("code", .text error.code), ("column", naturalOrNull (position.map LineCol.col)), path,
        ("line", naturalOrNull (position.map LineCol.line)), ("message", .text error.message),
        ("type", .text "error")]
  ⟨[Json.printObject members], []⟩

/-- The object for the whole run. -/
def jsonSummary (outcomes : List Outcome) (milliseconds : Option Nat) : Report :=
  let duration := milliseconds.toList.map fun n => ("duration_ms", Json.Scalar.natural n)
  ⟨[Json.printObject (duration ++ [("errors", .natural (failures outcomes)),
    ("files", .natural outcomes.length), ("type", .text "summary")])], []⟩

/-! ### Either way -/

/-- All that a run prints. -/
def ofOutcomes (format : OutputFormat) (outcomes : List Outcome) (milliseconds : Option Nat) : Report :=
  match format with
  | .human => (outcomes.map humanFile).foldr append (humanSummary outcomes milliseconds)
  | .json => (outcomes.map jsonFile).foldr append (jsonSummary outcomes milliseconds)

end Report

end TemplateCompiler
