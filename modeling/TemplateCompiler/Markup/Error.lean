/-
What can be wrong with the markup of a template.

An error is its cause with the span of the token at fault; the code and the wording are
functions of the cause.
-/
import TemplateCompiler.Markup.Position

namespace TemplateCompiler

/-- Why a text is no template. -/
inductive ParseError
  /-- After `<` stands `found`, or nothing, in place of a tag name. -/
  | noTagName (found : Option Char) (span : Span)
  /-- An end tag where no element is open. -/
  | strayEndTag (name : String) (span : Span)
  /-- A start tag, or an element, that does not end. -/
  | unclosedTag (tag : String) (span : Span)
  /-- An end tag of another name than that of the element to be closed. -/
  | mismatchedTag (opened closed : String) (span : Span)
  deriving DecidableEq

namespace ParseError

/-- The place at fault. -/
def span : ParseError → Span
  | noTagName _ span | strayEndTag _ span | unclosedTag _ span | mismatchedTag _ _ span => span

/-- The name of the kind of error. -/
def code : ParseError → String
  | noTagName .. | strayEndTag .. => "unexpected-token"
  | unclosedTag .. => "unclosed-tag"
  | mismatchedTag .. => "mismatched-tag"

/-- The error in words. -/
def message : ParseError → String
  | noTagName found _ =>
    "Expected tag name, found " ++ (match found with | some c => c.toString | none => "EOF")
  | strayEndTag name _ => "Expected element or text, found </" ++ name ++ ">"
  | unclosedTag tag _ => "Unclosed tag: <" ++ tag ++ ">"
  | mismatchedTag opened closed _ =>
    "Closing tag </" ++ closed ++ "> does not match <" ++ opened ++ ">"

end ParseError

end TemplateCompiler
