/-
From a tree back to a text.

Text and comments are written as they were read.  A value is always written between
double quotes, so a double quote in it is spelled `&quot;`; nothing else is escaped and
nothing is ever unescaped.  Only an element that has an end tag shows its content.
-/
import TemplateCompiler.Markup.Document

namespace TemplateCompiler

/-- A value as it stands between double quotes. -/
def escapeValue (cs : List Char) : List Char :=
  cs.flatMap fun c => if c == '"' then "&quot;".toList else [c]

namespace Attribute

/-- An attribute with the blank before it. -/
def print (attr : Attribute) : List Char :=
  ' ' :: attr.1.toList ++
    match attr.2 with
    | some value => '=' :: '"' :: escapeValue value.toList ++ ['"']
    | none => []

end Attribute

namespace Element

/-- The start tag. -/
def printStart (e : Element) : List Char :=
  '<' :: e.tag.toList ++ e.attrs.entries.flatMap Attribute.print ++
    match e.closing with
    | .selfClosing => [' ', '/', '>']
    | .normal | .void => ['>']

/-- The end tag. -/
def printEnd (e : Element) : List Char := '<' :: '/' :: e.tag.toList ++ ['>']

end Element

namespace Document

/-- A node with its content. -/
def printNode (d : Document) (id : Nat) : List Char :=
  match d.node? id with
  | none => []
  | some n =>
    match n.kind with
    | .text content => content.toList
    | .comment content => "<!--".toList ++ content.toList ++ "-->".toList
    | .element e =>
      if e.closing = .normal then
        e.printStart ++ ((d.children id).attach.flatMap fun c => d.printNode c.1) ++ e.printEnd
      else e.printStart
termination_by d.size - id
decreasing_by
  have := lt_of_mem_children c.2
  have := lt_size_of_mem_children c.2
  omega

/-- The text of the whole tree. -/
def print (d : Document) : String := String.ofList (d.roots.toList.flatMap d.printNode)

end Document

end TemplateCompiler
