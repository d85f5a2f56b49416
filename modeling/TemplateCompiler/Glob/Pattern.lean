/-
File name patterns.

A pattern is a sequence of parts.  `?` and `*` stand for one byte and for any number of
them, and the slash is nothing special to either.  Two asterisks that are a whole path
component stand for any number of components, and there are three such parts, according
to whether the component is the first, the last or one between.  Two asterisks elsewhere
are two single ones.  Brackets hold a class of characters, braces hold alternatives, and a
backslash takes the next character as it is.

A pattern is malformed if a bracket or brace is not closed, a brace is closed that is not
open, a range of characters runs backwards, or nothing follows a backslash.
-/
namespace TemplateCompiler

namespace Glob

/-- A part of a pattern. -/
inductive Part
  | literal (c : Char)
  /-- One byte. -/
  | anyByte
  /-- Any number of bytes. -/
  | anyRun
  /-- Any number of components at the front, with the slash after them. -/
  | leadingDirs
  /-- Anything after a slash. -/
  | trailingDirs
  /-- A slash, or two slashes with any number of components between. -/
  | innerDirs
  /-- One byte of a class, or one that is not in it. -/
  | charClass (negated : Bool) (ranges : List (Char × Char))
  | alternatives (branches : List (List Part))
  deriving Inhabited

/-- The ranges of a class up to its closing bracket, in reverse, and what follows it.
`pending` says that a hyphen was read that may continue the last range. -/
def readRanges (ranges : List (Char × Char)) (pending : Bool) :
    List Char → Option (List (Char × Char) × List Char)
  | [] => none
  | c :: rest =>
    match ranges with
    | [] => readRanges [(c, c)] false rest
    | (low, high) :: others =>
      if c = ']' then some (if pending then ('-', '-') :: ranges else ranges, rest)
      else if pending then
        if c < low then none else readRanges ((low, c) :: others) false rest
      else if c = '-' then readRanges ((low, high) :: others) true rest
      else readRanges ((c, c) :: ranges) false rest

/-- A class, read after its opening bracket, and what follows it. -/
def readClass (cs : List Char) : Option (Part × List Char) :=
  match cs with
  | '!' :: rest | '^' :: rest =>
    (readRanges [] false rest).map fun (ranges, left) => (.charClass true ranges.reverse, left)
  | rest => (readRanges [] false rest).map fun (ranges, left) => (.charClass false ranges.reverse, left)

/-- Parts of the branch being read, the last one first, with the last character read and
what follows it. -/
structure Reading where
  parts : List Part
  previous : Char
  rest : List Char

/-- Puts asterisks that are a component after the first in the place of the slash before
them.  Repeated ones count once. -/
def mergeDirs (parts : List Part) (isLast : Bool) : List Part :=
  match parts with
  | [] => []
  | .leadingDirs :: others => .leadingDirs :: others
  | .trailingDirs :: others => .trailingDirs :: others
  | _ :: others => (if isLast then .trailingDirs else .innerDirs) :: others

/-- Two asterisks, where `parts` come before them, `previous` is the character before them
and `rest` follows. -/
def readDirs (inGroup : Bool) (parts : List Part) (previous : Option Char) (rest : List Char) : Reading :=
  let twoRuns : Reading := ⟨.anyRun :: .anyRun :: parts, '*', rest⟩
  let opensBranch := inGroup && (previous == some ',' || previous == some '{')
  let endsBranch := inGroup && (rest.head? == some ',' || rest.head? == some '}')
  if parts.isEmpty then
    match rest with
    | [] => ⟨[.leadingDirs], '*', []⟩
    | '/' :: left => ⟨[.leadingDirs], '/', left⟩
    | _ => twoRuns
  else if previous != some '/' && !opensBranch then twoRuns
  else if rest.isEmpty || endsBranch then ⟨mergeDirs parts true, '*', rest⟩
  else
    match rest with
    | '/' :: left => ⟨mergeDirs parts false, '/', left⟩
    | _ => twoRuns

/-- A brace that is open: what came before it in its own branch, the last part first, and
the branches that are complete. -/
structure Group where
  before : List Part
  branches : List (List Part)

theorem length_readRanges_le {ranges : List (Char × Char)} {pending : Bool} {cs : List Char}
    {result : List (Char × Char) × List Char} (h : readRanges ranges pending cs = some result) :
    result.2.length < cs.length := by
  induction cs generalizing ranges pending with
  | nil => cases h
  | cons c rest ih =>
    unfold readRanges at h
    split at h
    · exact Nat.lt_succ_of_lt (ih h)
    · split at h
      · cases h
        simp
      · split at h
        · split at h
          · cases h
          · exact Nat.lt_succ_of_lt (ih h)
        · split at h
          · exact Nat.lt_succ_of_lt (ih h)
          · exact Nat.lt_succ_of_lt (ih h)

theorem length_readClass_le {cs left : List Char} {part : Part} (h : readClass cs = some (part, left)) :
    left.length ≤ cs.length := by
  unfold readClass at h
  split at h
  all_goals
    obtain ⟨⟨ranges, left'⟩, hread, heq⟩ := Option.map_eq_some_iff.1 h
    have := length_readRanges_le hread
    cases heq
    simp_all
    try omega

theorem length_readDirs_le (inGroup : Bool) (parts : List Part) (previous : Option Char)
    (rest : List Char) : (readDirs inGroup parts previous rest).rest.length ≤ rest.length := by
  simp only [readDirs]
  repeat' split
  all_goals simp

/-- The parts of a pattern.  `parts` are those of the branch being read, the last one
first, and `previous` is the character before. -/
def readParts (groups : List Group) (parts : List Part) (previous : Option Char) (cs : List Char) :
    Option (List Part) :=
  match cs with
  | [] => if groups.isEmpty then some parts.reverse else none
  | c :: rest =>
    if c = '?' then readParts groups (.anyByte :: parts) c rest
    else if c = '*' then
      match rest with
      | '*' :: rest' =>
        let reading := readDirs (!groups.isEmpty) parts previous rest'
        readParts groups reading.parts reading.previous reading.rest
      | rest => readParts groups (.anyRun :: parts) c rest
    else if c = '[' then
      match _h : readClass rest with
      | none => none
      | some (part, left) => readParts groups (part :: parts) ']' left
    else if c = '{' then readParts (⟨parts, []⟩ :: groups) [] c rest
    else if c = '}' then
      match groups with
      | [] => none
      | group :: groups =>
        readParts groups (.alternatives (group.branches ++ [parts.reverse]) :: group.before) c rest
    else if c = ',' then
      match groups with
      | [] => readParts [] (.literal c :: parts) c rest
      | group :: groups =>
        readParts (⟨group.before, group.branches ++ [parts.reverse]⟩ :: groups) [] c rest
    else if c = '\\' then
      match rest with
      | [] => none
      | taken :: rest => readParts groups (.literal taken :: parts) taken rest
    else readParts groups (.literal c :: parts) c rest
termination_by cs.length
decreasing_by
  all_goals simp only [List.length_cons]
  all_goals try omega
  · exact Nat.lt_succ_of_le (Nat.le_succ_of_le (length_readDirs_le ..))
  · exact Nat.lt_succ_of_le (length_readClass_le _h)

end Glob

/-- A file name pattern. -/
structure Glob where
  parts : List Glob.Part
  deriving Inhabited

/-- The pattern that a text spells. -/
def Glob.parse? (text : String) : Option Glob := (readParts [] [] none text.toList).map Glob.mk

end TemplateCompiler
