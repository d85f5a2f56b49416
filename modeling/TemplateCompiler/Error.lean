/-
Why a template is not compiled.

The error is the cause; its code, its wording and the place at fault are read off it.
-/
import TemplateCompiler.Markup.Error

namespace TemplateCompiler

/-- Why a template is not compiled. -/
inductive CompileError
  /-- The markup is malformed. -/
  | markup (error : ParseError)
  /-- A directive continues a chain of conditions that no sibling begins. -/
  | brokenChain (tag directive : String) (span : Span)
  /-- The expression is no loop, or none that the platform can take. -/
  | badIteration (tag expression : String) (span : Span)
  /-- There is no platform of this name. -/
  | unknownTarget (name : String)
  /-- Two directives stand for the same attribute. -/
  | conflict (tag first second : String) (span : Span)
  deriving DecidableEq

namespace CompileError

/-- The place at fault, if there is one. -/
def span? : CompileError → Option Span
  | markup error => some error.span
  | brokenChain _ _ span | badIteration _ _ span | conflict _ _ _ span => some span
  | unknownTarget _ => none

/-- The name of the kind of error. -/
def code : CompileError → String
  | markup error => error.code
  | brokenChain .. => "directive-chain"
  | badIteration .. => "invalid-v-for"
  | unknownTarget _ => "unknown-platform"
  | conflict .. => "conflicting-directive"

/-- The error in words. -/
def message : CompileError → String
  | markup error => error.message
  | brokenChain tag directive _ =>
    "`" ++ directive ++ "` on <" ++ tag ++ "> has no preceding v-if or v-else-if sibling"
  | badIteration tag expression _ =>
    "invalid v-for expression `" ++ expression ++ "` on <" ++ tag ++ ">"
  | unknownTarget name =>
    "unknown target platform `" ++ name ++ "` (expected one of web, weex, wx, alipay, baidu)"
  | conflict tag first second _ =>
    "`" ++ first ++ "` and `" ++ second ++ "` on <" ++ tag ++ "> target the same attribute"

/-- The line and column of the error in its source.  An empty source has none. -/
def location? (source : String) (error : CompileError) : Option LineCol :=
  if source.isEmpty then none
  else error.span?.map fun span => (LineIndex.ofText source).lineCol span.start

end CompileError

end TemplateCompiler
