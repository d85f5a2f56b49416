/-
Static styles, written for a platform.

Lengths are given in a unit of the design.  Mini programs have a unit of their own that
means the same; elsewhere lengths become pixels, which on the web are scaled or turned
into multiples of the root font size according to the options.

Weex wants more: declarations are trimmed, blanks inside a value are made single, and
colours are written as six hexadecimal digits.  Declarations are separated by semicolons
outside brackets and quotes.  A value with an interpolation in it is kept as it is but for
its lengths, and so is a declaration whose property has one.
-/
import TemplateCompiler.Decimal.Reading
import TemplateCompiler.Dialect
import TemplateCompiler.Style.Color
import TemplateCompiler.Style.Config
import TemplateCompiler.Style.Length
import TemplateCompiler.Text.Blank
import TemplateCompiler.Text.Nesting

namespace TemplateCompiler

namespace Style

/-- Quotes in style declarations; a backslash has no meaning in them. -/
def quoting : Quoting := ⟨['\'', '"'], false⟩

/-- The declarations of a style, trimmed and without empty ones. -/
def splitDeclarations (cs : List Char) : List (List Char) :=
  ((Nesting.splitTop quoting ';' .outside cs).map Text.trimChars).filter fun part => !part.isEmpty

/-- Lengths with their unit replaced. -/
def withUnit (unit : List Char) (cs : List Char) : List Char :=
  Length.replaceAll (· ++ unit) cs

/-! ### Weex -/

/-- The start of an interpolation. -/
def interpolationMark : List Char := ['{', '{']

/-- A value for weex. -/
def weexValue (cs : List Char) : List Char :=
  let value := withUnit ['p', 'x'] cs
  if (Text.cutChars interpolationMark value).isSome then value
  else [' '].intercalate ((Text.wordsChars value).map Color.normalize)

/-- A declaration for weex. -/
def weexDeclaration (cs : List Char) : List Char :=
  match Text.cutChars [':'] cs with
  | some (property, value) =>
    if (Text.cutChars interpolationMark property).isSome then cs
    else Text.trimChars property ++ ':' :: ' ' :: weexValue (Text.trimChars value)
  | none => cs

/-- A style for weex. -/
def weex (cs : List Char) : List Char :=
  [';'].intercalate ((splitDeclarations cs).map weexDeclaration)

/-! ### Web -/

/-- A length for the web.  A number that is not in ASCII digits is left alone. -/
def webLength (config : StyleConfig) (number : List Char) : List Char :=
  match Decimal.read? number with
  | none => number ++ ['c', 'p', 'x']
  | some x =>
    let text :=
      if !config.remEnabled then Script.number (x * config.scaleInUse) ++ "px"
      else if x.abs ≤ config.minPixelValueInUse then Script.number x ++ "px"
      else Script.number (x / config.rootValueInUse) ++ "rem"
    text.toList

/-! ### Every platform -/

/-- A static style for a platform. -/
def normalizeChars (target : Target) (config : Option StyleConfig) (cs : List Char) : List Char :=
  if target.dialect.isWeex then weex cs
  else if target.dialect.isMiniProgram then withUnit ['r', 'p', 'x'] cs
  else Length.replaceAll (webLength (config.getD .empty)) cs

/-- A static style for a platform. -/
def normalize (target : Target) (config : Option StyleConfig) (style : String) : String :=
  String.ofList (normalizeChars target config style.toList)

end Style

end TemplateCompiler
