/-
Colours.

Some platforms understand a colour only as six hexadecimal digits.  A name of the table
and a colour of three digits are written out; anything else is no colour and stays.
-/
import TemplateCompiler.Text.Search

namespace TemplateCompiler

namespace Color

/-- The colours that have names. -/
def named : List (String × String) := [
  ("black", "#000000"), ("silver", "#c0c0c0"), ("gray", "#808080"), ("grey", "#808080"),
  ("white", "#ffffff"), ("maroon", "#800000"), ("red", "#ff0000"), ("purple", "#800080"),
  ("fuchsia", "#ff00ff"), ("magenta", "#ff00ff"), ("green", "#008000"), ("lime", "#00ff00"),
  ("olive", "#808000"), ("yellow", "#ffff00"), ("navy", "#000080"), ("blue", "#0000ff"),
  ("teal", "#008080"), ("aqua", "#00ffff"), ("cyan", "#00ffff"), ("orange", "#ffa500"),
  ("pink", "#ffc0cb"), ("brown", "#a52a2a"), ("gold", "#ffd700"), ("indigo", "#4b0082"),
  ("violet", "#ee82ee"), ("darkgray", "#a9a9a9"), ("darkgrey", "#a9a9a9"),
  ("lightgray", "#d3d3d3"), ("lightgrey", "#d3d3d3"), ("darkred", "#8b0000"),
  ("darkblue", "#00008b"), ("darkgreen", "#006400"), ("lightblue", "#add8e6"),
  ("lightgreen", "#90ee90"), ("skyblue", "#87ceeb"), ("tomato", "#ff6347"),
  ("coral", "#ff7f50"), ("salmon", "#fa8072"), ("khaki", "#f0e68c"), ("beige", "#f5f5dc"),
  ("ivory", "#fffff0"), ("crimson", "#dc143c"), ("chocolate", "#d2691e"), ("tan", "#d2b48c"),
  ("turquoise", "#40e0d0"), ("whitesmoke", "#f5f5f5")]

/-- A hexadecimal digit in either case. -/
def isHexDigit (c : Char) : Bool :=
  c.isDigit || ('a' ≤ c && c ≤ 'f') || ('A' ≤ c && c ≤ 'F')

/-- The word with a colour in it written as six small hexadecimal digits. -/
def normalize (word : List Char) : List Char :=
  match word with
  | '#' :: digits =>
    if digits.all isHexDigit && digits.length == 3 then
      '#' :: Text.lowerAsciiChars (digits.flatMap fun c => [c, c])
    else if digits.all isHexDigit && digits.length == 6 then Text.lowerAsciiChars word
    else word
  | _ =>
    match named.lookup (String.ofList (Text.lowerAsciiChars word)) with
    | some hex => hex.toList
    | none => word

end Color

end TemplateCompiler
