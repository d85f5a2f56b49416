/-
Loop expressions: `alias in source`.

The keyword is the first `in` or `of` outside brackets and string literals that follows a
blank or a closing bracket and is followed by an ASCII blank.  What stands before it names
the item, or in parentheses the item, the index and so on, separated by commas outside
brackets and literals; a pattern in brackets is one alias.  What stands after it is the
source, whatever it holds.
-/
import TemplateCompiler.Text.Blank
import TemplateCompiler.Text.Nesting
import TemplateCompiler.Text.Word

namespace TemplateCompiler

/-- A loop expression, taken apart. -/
structure Iteration where
  aliases : List String
  source : String
  deriving DecidableEq

namespace Iteration

/-- Quotes in expressions; a backslash protects the character after it. -/
def quoting : Quoting := ⟨['\'', '"', '`'], true⟩

/-- The name of the index in a loop that gives it none. -/
def defaultIndex : String := "index"

/-- The alias of the item. -/
def item (it : Iteration) : String := it.aliases.headD ""

/-- The alias of the index. -/
def index (it : Iteration) : String := (it.aliases[1]?).getD defaultIndex

/-- Every alias is an identifier. -/
def hasSimpleAliases (it : Iteration) : Bool := it.aliases.all isIdentifier

/-- A keyword can stand after this character. -/
def opensKeyword : Option Char → Bool
  | some c => isBlank c || Nesting.isClosing c
  | none => false

/-- A keyword with an ASCII blank after it stands here. -/
def atKeyword : List Char → Bool
  | 'i' :: 'n' :: c :: _ => isAsciiBlank c
  | 'o' :: 'f' :: c :: _ => isAsciiBlank c
  | _ => false

/-- The parts before and after the keyword, where the character before the text is
`previous`. -/
def splitKeyword (s : Nesting) (previous : Option Char) :
    List Char → Option (List Char × List Char)
  | [] => none
  | c :: rest =>
    if s.atTop quoting c && opensKeyword previous && atKeyword (c :: rest) then
      some ([], rest.drop 1)
    else
      (splitKeyword (s.step quoting c) (some c) rest).map fun (before, after) => (c :: before, after)

/-- What stands between parentheses that enclose the whole text. -/
def insideParentheses? (cs : List Char) : Option (List Char) :=
  match cs with
  | '(' :: rest => if rest.getLast? == some ')' then some rest.dropLast else none
  | _ => none

/-- The aliases of a trimmed text that names them. -/
def splitAliases (cs : List Char) : List (List Char) :=
  match insideParentheses? cs with
  | some list => (Nesting.splitTop quoting ',' .outside list).map Text.trimChars
  | none => [cs]

/-- The parts of a loop expression; no alias and no source may be empty. -/
def parseChars? (cs : List Char) : Option (List (List Char) × List Char) :=
  match splitKeyword .outside none cs with
  | none => none
  | some (before, after) =>
    let named := Text.trimChars before
    let source := Text.trimChars after
    let aliases := splitAliases named
    if named.isEmpty || source.isEmpty || aliases.any List.isEmpty then none
    else some (aliases, source)

/-- A loop expression, if the text is one. -/
def parse? (expression : String) : Option Iteration :=
  (parseChars? expression.toList).map fun (aliases, source) =>
    ⟨aliases.map String.ofList, String.ofList source⟩

end Iteration

end TemplateCompiler
