/-
Paths as texts.

A path is cut at its slashes into components.  Empty components say nothing, and neither
does a single dot except as the first of a relative path.  A slash in front is a component
of its own.
-/
namespace TemplateCompiler

namespace Path

/-- The pieces between the slashes. -/
def pieces (path : String) : List String := (path.toList.splitOn '/').map String.ofList

/-- The path begins at the root. -/
def isAbsolute (path : String) : Bool := path.toList.head? == some '/'

/-- The piece says something. -/
def isSaid (piece : String) : Bool := piece != "" && piece != "."

/-- The pieces that say something. -/
def names (path : String) : List String := (pieces path).filter isSaid

/-- The components that say something. -/
def components (path : String) : List String :=
  if isAbsolute path then "/" :: names path
  else if (pieces path).head? == some "." then "." :: names path
  else names path

/-- The last component, if it is the name of something. -/
def fileName? (path : String) : Option String :=
  match (components path).getLast? with
  | some name => if name == "." || name == ".." || name == "/" then none else some name
  | none => none

/-- What follows the last dot of a file name.  A dot in front begins no extension. -/
def extensionOfName? (name : String) : Option String :=
  match (name.toList.splitOn '.').reverse with
  | [] | [_] => none
  | [_, []] => none
  | last :: _ => some (String.ofList last)

/-- The extension with its dot, or nothing if there is none. -/
def dotExtension (path : String) : String :=
  match (fileName? path).bind extensionOfName? with
  | some extension => "." ++ extension
  | none => ""

/-- The path of something under another one. -/
def join (path relative : String) : String :=
  if path.isEmpty || path.toList.getLast? == some '/' then path ++ relative
  else path ++ "/" ++ relative

/-- The path of the names, one inside the other. -/
def ofNames (names : List String) : String := "/".intercalate names

/-- The bytes of a name.  Names are in the order of their bytes where a directory is listed. -/
def bytes (name : String) : List UInt8 := name.toUTF8.data.toList

end Path

end TemplateCompiler
