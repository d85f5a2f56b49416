/-
Literals of the scripting language in which attribute values are evaluated.

A string is written between single quotes, with a backslash before each quote and
backslash in it and `\n` for a line feed; every other character stands for itself.
Arrays and objects are written without blanks, the fields of an object in the order in
which they are given.  A number is rounded to six decimal places first, halves away from
zero, and a number that rounds to zero has no sign.
-/
import TemplateCompiler.Decimal.Shortest

namespace TemplateCompiler

namespace Script

/-- A character as it stands inside a string literal. -/
def quoteChar (c : Char) : List Char :=
  if c == '\\' then ['\\', '\\']
  else if c == '\'' then ['\\', '\'']
  else if c == '\n' then ['\\', 'n']
  else [c]

/-- A string literal. -/
def quoteChars (cs : List Char) : List Char := '\'' :: cs.flatMap quoteChar ++ ['\'']

/-- A string literal. -/
def quote (s : String) : String := String.ofList (quoteChars s.toList)

/-- The text of a string literal, read after its opening quote, and what follows the
literal. -/
def unquote : List Char → Option (List Char × List Char)
  | [] => none
  | '\'' :: rest => some ([], rest)
  | '\\' :: '\\' :: rest => (unquote rest).map fun (text, left) => ('\\' :: text, left)
  | '\\' :: '\'' :: rest => (unquote rest).map fun (text, left) => ('\'' :: text, left)
  | '\\' :: 'n' :: rest => (unquote rest).map fun (text, left) => ('\n' :: text, left)
  | c :: rest => (unquote rest).map fun (text, left) => (c :: text, left)

/-- A number literal. -/
def number (x : Float) : String :=
  let rounded := (x * 1e6).round / 1e6
  if rounded == 0 then "0" else shortestText rounded

/-- An array literal of strings. -/
def array (items : List String) : String := "[" ++ ",".intercalate (items.map quote) ++ "]"

/-- An object literal; the values are literals already. -/
def object (fields : List (String × String)) : String :=
  "\x7b" ++ ",".intercalate (fields.map fun (key, value) => quote key ++ ":" ++ value) ++ "\x7d"

/-! ### Small laws -/

theorem unquote_quoteChar (c : Char) (rest : List Char) :
    unquote (quoteChar c ++ rest) = (unquote rest).map fun (text, left) => (c :: text, left) := by
  unfold quoteChar
  split
  · simp_all [unquote]
  · split
    · simp_all [unquote]
    · split
      · simp_all [unquote]
      · simp_all [unquote]

/-- What is written between quotes is read back, whatever follows. -/
theorem unquote_flatMap_quoteChar (cs rest : List Char) :
    unquote (cs.flatMap quoteChar ++ '\'' :: rest) = some (cs, rest) := by
  induction cs with
  | nil => simp [unquote]
  | cons c cs ih => simp [List.flatMap_cons, unquote_quoteChar, ih]

end Script

end TemplateCompiler
