/-
Printing a parsed template and parsing it again.

The reader forgives much: a stray character in a start tag, a value without quotes, a name
that is given twice, an end tag without its `>`, a comment or an interpolation that never
ends.  Each of these is lost when the tree is printed, and what is printed instead is read
as the same tree.  The one thing that changes is a double quote in a value, which stood
between single quotes or between none and is now spelled out.  It stays spelled out, so the
printed text is a normal form: printing what is parsed from it gives that text again.

Spans are not compared.  They are offsets into a text, and the printed text is another one.
-/
import TemplateCompiler.Proofs.Skeleton

namespace TemplateCompiler

/-- The node as it is read back: the same links, the same content, and every double quote in a
value spelled out. -/
def NodeShape.escaped (s : NodeShape) : NodeShape := { s with kind := s.kind.escaped }

namespace Document

/-- What is printed for a parsed template is parsed again, to the same nodes under the same
indices: each has the same parent, the same children and the same content, but for quotes in
values.  Printing that tree gives the same text, so printing after parsing is idempotent. -/
theorem parse_print_of_parse {source : String} {d : Document} (h : parse source = .ok d) :
    ∃ d', parse d.print = .ok d' ∧ d'.size = d.size ∧ d'.roots = d.roots ∧
      (∀ id, d'.shape? id = (d.shape? id).map NodeShape.escaped) ∧ d'.print = d.print := by
  obtain ⟨F, hrep, hread⟩ := exists_readable_of_parse h
  obtain ⟨d', hparse, hrep'⟩ := hrep.parse_print hread
  have hshape : ∀ id, d'.shape? id = (d.shape? id).map NodeShape.escaped := by
    intro id
    exact hrep.shape?_escaped hrep' id
  have htree : SameTree d d' := sameTree_of_escaped hrep hrep'
  have hprint : d'.print = d.print := by
    rw [hrep'.print_eq, hrep.print_eq, Forest.print_escaped]
  exact ⟨d', hparse, htree.size_eq, htree.roots, hshape, hprint⟩

/-- A template that uses most of what the reader forgives. -/
theorem parse_print_of_parse_lenient :
    let source := "<A x='p\"q' y=1 ! y z=>\x7b\x7b a<b \x7d\x7d</a\n<BR/><!-- c"
    ∃ d, parse source = .ok d ∧
      d.print = "<A x=\"p&quot;q\" y z=\"\">\x7b\x7b a<b \x7d\x7d</A><BR /><!-- c-->" ∧
      ∃ d', parse d.print = .ok d' ∧ d'.size = d.size ∧ d'.roots = d.roots ∧
        (∀ id, d'.shape? id = (d.shape? id).map NodeShape.escaped) ∧ d'.print = d.print := by
  intro source
  have hprint : (parse source).map print
      = .ok "<A x=\"p&quot;q\" y z=\"\">\x7b\x7b a<b \x7d\x7d</A><BR /><!-- c-->" := by
    decide +kernel
  cases h : parse source with
  | error e =>
      rw [h] at hprint
      cases hprint
  | ok d =>
      rw [h] at hprint
      exact ⟨d, rfl, Except.ok.inj hprint, parse_print_of_parse h⟩

end Document

end TemplateCompiler
