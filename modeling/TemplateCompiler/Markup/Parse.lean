/-
From a text to its tree.

The content of an element is read token by token until its end tag; the content of an
element inside it is read first, by the same function.  Nodes are pushed in the order in
which their first characters stand in the text, so the indices are the preorder.  The
recursion ends because a token takes at least one character.

An end tag matches the innermost open element if the names agree up to the case of ASCII
letters, and then the element's span is stretched to the end of the end tag.
-/
import TemplateCompiler.Markup.Token

namespace TemplateCompiler

/-- An element whose end tag is still to come. -/
structure OpenTag where
  id : Nat
  tag : String
  /-- The span of the start tag. -/
  span : Span
  deriving DecidableEq

namespace OpenTag

/-- An end tag of this name closes the element. -/
def matchesEnd (opened : OpenTag) (name : String) : Bool :=
  Text.lowerAscii opened.tag == Text.lowerAscii name

end OpenTag

namespace Document

/-- Reads the content of `opened`, or of the whole text if no element is open, and pushes
it to `d`.  What is left begins after the end tag. -/
def readContent (opened : Option OpenTag) (d : Document) (k : Cursor) :
    Except ParseError (Document × { k' : Cursor // k'.rest.length ≤ k.rest.length }) :=
  if hk : k.rest = [] then
    match opened with
    | some o => .error (.unclosedTag o.tag o.span)
    | none => .ok (d, ⟨k, Nat.le_refl _⟩)
  else
    match hnext : Token.next k with
    | .error e => .error e
    | .ok (token, k₁) =>
      have hlt : k₁.rest.length < k.rest.length := Token.length_next_lt hk hnext
      let span : Span := ⟨k.offset, k₁.offset⟩
      let parent := opened.map OpenTag.id
      /- The rest of the same content, once the token has been dealt with. -/
      let continueFrom (d : Document) (k₂ : Cursor) (h : k₂.rest.length < k.rest.length) :=
        (readContent opened d k₂).map fun (d, k₃) => (d, ⟨k₃.1, Nat.le_trans k₃.2 (Nat.le_of_lt h)⟩)
      match token with
      | .endTag name =>
        match opened with
        | some o =>
          if o.matchesEnd name then .ok (d.setStop o.id k₁.offset, ⟨k₁, Nat.le_of_lt hlt⟩)
          else .error (.mismatchedTag o.tag name span)
        | none => .error (.strayEndTag name span)
      | .comment content => continueFrom (d.push parent (.comment content) span) k₁ hlt
      | .text content => continueFrom (d.push parent (.text content) span) k₁ hlt
      | .startTag tag attrs closing =>
        let inner := d.push parent (.element { tag, attrs, closing }) span
        if closing = .normal then
          match readContent (some ⟨d.size, tag, span⟩) inner k₁ with
          | .error e => .error e
          | .ok (d, k₂) => continueFrom d k₂.1 (Nat.lt_of_le_of_lt k₂.2 hlt)
        else continueFrom inner k₁ hlt
termination_by k.rest.length

/-- The tree of a template. -/
def parse (text : String) : Except ParseError Document :=
  (readContent none empty (.ofText text)).map Prod.fst

end Document

end TemplateCompiler
