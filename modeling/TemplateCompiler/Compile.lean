/-
Compiling a template: from text to tree, through all passes, and back to text.
-/
import TemplateCompiler.Markup.Parse
import TemplateCompiler.Markup.Print
import TemplateCompiler.Pipeline

namespace TemplateCompiler

/-- The tree, or the error that stopped the work on it. -/
def Progress.toExcept (progress : Progress) : Except CompileError Document :=
  match progress.error with
  | some error => .error error
  | none => .ok progress.document

/-- The tree of a template, where errors are those of compiling. -/
def parseTemplate (source : String) : Except CompileError Document :=
  (Document.parse source).mapError .markup

/-- Compiles a template for a platform. -/
def compile (source : String) (target : Target) (style : Option StyleConfig) :
    Except CompileError String := do
  let d ← parseTemplate source
  let d ← (d.adapt (.forTarget target style)).toExcept
  return d.print

end TemplateCompiler
