/-
Files and directories, as far as they are needed.

What a run asks of them is a record of operations in any monad, so that a run can be
carried out on the files of a machine or on a tree in memory.  The tree is the list of
everything in it under its place, the names that lead to it from the root, the directories
included.

A path is followed from the working directory, or from the root if it begins there, one
piece after the other.  Every piece but the last must lead to a directory, and so must every
piece that is followed by a slash.
-/
import TemplateCompiler.Project.Path

namespace TemplateCompiler

/-- Why something cannot be done with a path. -/
inductive DiskFault
  | notFound
  | alreadyThere
  | notDirectory
  | isDirectory
  /-- Anything else, in words. -/
  | other (text : String)
  deriving DecidableEq

/-- The fault in the words of the system. -/
def DiskFault.message : DiskFault → String
  | notFound => "No such file or directory (os error 2)"
  | alreadyThere => "File exists (os error 17)"
  | notDirectory => "Not a directory (os error 20)"
  | isDirectory => "Is a directory (os error 21)"
  | other text => text

/-- The operations on files that a run needs. -/
structure Disk (m : Type → Type) where
  /-- The path leads to a file. -/
  isFile : String → m Bool
  /-- The files below a directory, each as the names that lead to it.  They are in the
  order of their names, component by component.  There are none below anything else. -/
  filesBelow : String → m (List (List String))
  /-- The bytes of a file. -/
  read : String → m (Except DiskFault ByteArray)
  /-- Writes a file, and makes the directories that it needs. -/
  write : String → ByteArray → m (Except DiskFault Unit)

/-- A file or a directory. -/
inductive Entry
  | file (bytes : ByteArray)
  | directory
  deriving Inhabited

/-- A tree of files, under the names that lead to them. -/
structure FileTree where
  /-- The place of the working directory. -/
  working : List String
  entries : List (List String × Entry)

namespace FileTree

/-- A tree with nothing in it but the working directory. -/
def empty : FileTree := ⟨["home"], [(["home"], .directory)]⟩

/-- What the names lead to; no names lead to the root. -/
def find? (t : FileTree) (names : List String) : Option Entry :=
  if names.isEmpty then some .directory else t.entries.lookup names

/-- Puts something in the place of what the names lead to. -/
def put (t : FileTree) (names : List String) (entry : Entry) : FileTree :=
  { t with entries := (names, entry) :: t.entries.filter fun other => other.1 != names }

/-- The place that one piece of a path leads to. -/
def stepTo (place : List String) (piece : String) : List String :=
  if piece = "" ∨ piece = "." then place
  else if piece = ".." then place.dropLast
  else place ++ [piece]

/-- Follows pieces of a path from a place, and gives the place they lead to with what is
there. -/
def follow (t : FileTree) (place : List String) :
    List String → Except DiskFault (List String × Option Entry)
  | [] => .ok (place, t.find? place)
  | piece :: rest =>
    match t.find? place with
    | none => .error .notFound
    | some (.file _) => .error .notDirectory
    | some .directory => t.follow (stepTo place piece) rest

/-- The place that a path is followed from. -/
def start (t : FileTree) (path : String) : List String :=
  if Path.isAbsolute path then [] else t.working

/-- Follows a path. -/
def locate (t : FileTree) (path : String) : Except DiskFault (List String × Option Entry) :=
  t.follow (t.start path) (Path.pieces path)

/-- The path leads to a file. -/
def isFile (t : FileTree) (path : String) : Bool :=
  match t.locate path with
  | .ok (_, some (.file _)) => true
  | _ => false

/-- The names of what is in a directory, in the order of their bytes. -/
def namesIn (t : FileTree) (place : List String) : List String :=
  let names := t.entries.filterMap fun (names, _) =>
    if names.dropLast = place then names.getLast? else none
  names.mergeSort fun a b => decide (Path.bytes a ≤ Path.bytes b)

/-- The files that are found through a name in a directory, the name in front.  If it is
itself that of a directory, `below` finds them there. -/
def through (t : FileTree) (below : List String → List (List String × ByteArray))
    (place : List String) (name : String) : List (List String × ByteArray) :=
  match t.find? (place ++ [name]) with
  | none => []
  | some (.file bytes) => [([name], bytes)]
  | some .directory => (below (place ++ [name])).map fun (names, bytes) => (name :: names, bytes)

/-- The files at most so many steps below a place with their bytes.  What a directory holds
stands where the name of the directory would. -/
def walk (t : FileTree) : Nat → List String → List (List String × ByteArray)
  | 0, _ => []
  | steps + 1, place => (t.namesIn place).flatMap (t.through (t.walk steps) place)

/-- The number of names in the longest place. -/
def height (t : FileTree) : Nat := (t.entries.map fun (names, _) => names.length).max?.getD 0

/-- The files below the directory that a path leads to. -/
def filesBelow (t : FileTree) (path : String) : List (List String × ByteArray) :=
  match t.locate path with
  | .ok (place, some .directory) => t.walk t.height place
  | _ => []

/-- The bytes of the file that a path leads to. -/
def read (t : FileTree) (path : String) : Except DiskFault ByteArray :=
  match t.locate path with
  | .error fault => .error fault
  | .ok (_, none) => .error .notFound
  | .ok (_, some .directory) => .error .isDirectory
  | .ok (_, some (.file bytes)) => .ok bytes

/-- Makes one directory, where the pieces lead to nothing yet. -/
def makeDirectory (t : FileTree) (place pieces : List String) : Except DiskFault FileTree :=
  match t.follow place pieces with
  | .error fault => .error fault
  | .ok (_, some _) => .error .alreadyThere
  | .ok (target, none) => .ok (t.put target .directory)

/-- The pieces lead to a directory. -/
def isDirectory (t : FileTree) (place pieces : List String) : Bool :=
  match t.follow place pieces with
  | .ok (_, some .directory) => true
  | _ => false

/-- Makes the directory of the pieces, given last one first, and those above it.  What has
been made stays, whether or not the rest can be. -/
def makeDirectories (t : FileTree) (place : List String) :
    List String → FileTree × Except DiskFault Unit
  | [] => (t, .ok ())
  | last :: above =>
    let pieces := (last :: above).reverse
    match t.makeDirectory place pieces with
    | .ok t => (t, .ok ())
    | .error .notFound =>
      match t.makeDirectories place above with
      | (t, .error fault) => (t, .error fault)
      | (t, .ok ()) =>
        match t.makeDirectory place pieces with
        | .ok t => (t, .ok ())
        | .error fault => (t, if t.isDirectory place pieces then .ok () else .error fault)
    | .error fault => (t, if t.isDirectory place pieces then .ok () else .error fault)

/-- Writes a file in a directory that is there. -/
def writeFile (t : FileTree) (path : String) (bytes : ByteArray) : FileTree × Except DiskFault Unit :=
  match t.locate path with
  | .error fault => (t, .error fault)
  | .ok (_, some .directory) => (t, .error .isDirectory)
  | .ok (place, _) => (t.put place (.file bytes), .ok ())

/-- Writes a file, and makes the directories that it needs. -/
def write (t : FileTree) (path : String) (bytes : ByteArray) : FileTree × Except DiskFault Unit :=
  match t.makeDirectories (t.start path) (Path.names path).dropLast.reverse with
  | (t, .error fault) => (t, .error fault)
  | (t, .ok ()) => t.writeFile path bytes

/-- The tree of files under their paths, with the directories that they need. -/
def ofFiles (files : List (String × ByteArray)) : FileTree :=
  files.foldl (fun t (path, bytes) => (t.write path bytes).1) empty

/-- The operations on a tree in memory. -/
def disk : Disk (StateM FileTree) where
  isFile path := return (← get).isFile path
  filesBelow path := return ((← get).filesBelow path).map Prod.fst
  read path := return (← get).read path
  write path bytes := modifyGet fun t => let (t, result) := t.write path bytes; (result, t)

end FileTree

end TemplateCompiler
