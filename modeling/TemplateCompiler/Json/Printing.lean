/-
Writing JSON without blanks.

The values to be written are of the program's own making: they hold texts, natural
numbers and nothing else that would have to be measured.
-/
namespace TemplateCompiler

namespace Json

/-- What is written as a member of an object. -/
inductive Scalar
  | null
  | natural (n : Nat)
  | text (s : String)
  deriving DecidableEq

/-- A hexadecimal digit. -/
def hexChar (n : Nat) : Char := Nat.digitChar (n % 16)

/-- A character as it stands inside a string. -/
def escapeChar (c : Char) : List Char :=
  if c == '"' then ['\\', '"']
  else if c == '\\' then ['\\', '\\']
  else if c == '\n' then ['\\', 'n']
  else if c == '\r' then ['\\', 'r']
  else if c == '\t' then ['\\', 't']
  else if c == '\x08' then ['\\', 'b']
  else if c == '\x0c' then ['\\', 'f']
  else if c.toNat < 0x20 then ['\\', 'u', '0', '0', hexChar (c.toNat / 16), hexChar c.toNat]
  else [c]

/-- A string. -/
def printText (s : String) : String := String.ofList ('"' :: s.toList.flatMap escapeChar ++ ['"'])

/-- A value that is no container. -/
def Scalar.print : Scalar → String
  | null => "null"
  | natural n => toString n
  | text s => printText s

/-- A member of an object. -/
def printMember (member : String × Scalar) : String :=
  printText member.1 ++ ":" ++ member.2.print

/-- An object with its members in the order of the list. -/
def printObject (members : List (String × Scalar)) : String :=
  "\x7b" ++ ",".intercalate (members.map printMember) ++ "\x7d"

end Json

end TemplateCompiler
