import TemplateCompiler.InPlace
import TemplateCompiler.Main
import TemplateCompiler.Proofs.Chain
import TemplateCompiler.Proofs.Composition
import TemplateCompiler.Proofs.Dialects
import TemplateCompiler.Proofs.Machine
import TemplateCompiler.Proofs.RoundTrip
import TemplateCompiler.Proofs.References
import TemplateCompiler.Proofs.Showing
import TemplateCompiler.Proofs.Retention
import TemplateCompiler.Proofs.Acceptance
import TemplateCompiler.Proofs.Quotes
import TemplateCompiler.Proofs.Atomicity
import TemplateCompiler.Proofs.Location
import TemplateCompiler.Proofs.Shorthand
import TemplateCompiler.Proofs.Commutation
import TemplateCompiler.Proofs.Options
import TemplateCompiler.Proofs.Edits
import TemplateCompiler.Proofs.Mirror
import TemplateCompiler.Proofs.Delivery
import TemplateCompiler.Proofs.Traversal
import TemplateCompiler.Proofs.Classes
import TemplateCompiler.Proofs.Styles
import TemplateCompiler.Proofs.Overriding
import TemplateCompiler.Proofs.Loops
import TemplateCompiler.Proofs.Enclosures
import TemplateCompiler.Proofs.Interpolations
import TemplateCompiler.Proofs.Endings
import TemplateCompiler.Proofs.LineTables
import TemplateCompiler.Proofs.LineEnds
