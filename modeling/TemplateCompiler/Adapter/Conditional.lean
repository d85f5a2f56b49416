/-
Chains of conditions.

An element has at most one of the three directives.  One that continues a chain needs an
element directly before it, text and comments aside, that begins or continues one.  Since
elements are adapted in order, that element already carries the platform's names.
-/
import TemplateCompiler.Adapter.Basic

namespace TemplateCompiler

/-- One of the three directives of a chain. -/
def DirectiveKind.isConditional : DirectiveKind → Bool
  | ifCond | elseIf | otherwise => true
  | _ => false

namespace ConditionalNames

/-- The platform's name for a directive of a chain. -/
def nameOf (names : ConditionalNames) : DirectiveKind → String
  | .ifCond => names.ifName
  | .elseIf => names.elseIfName
  | _ => names.elseName

/-- An element with these attributes, already adapted, can be continued. -/
def continuedBy (names : ConditionalNames) (attrs : Attributes) : Bool :=
  attrs.contains names.ifName || attrs.contains names.elseIfName

end ConditionalNames

namespace Attributes

/-- The directives of chains on an element. -/
def conditionals (attrs : Attributes) : List Directive :=
  attrs.directives.filter fun d => d.kind.isConditional

end Attributes

namespace Adapter

/-- Adapts `v-if`, `v-else-if` and `v-else`. -/
def conditional : Adapter := fun setting site attrs =>
  let names := setting.dialect.conditional
  match attrs.conditionals with
  | [] => .ok attrs
  | first :: second :: _ => .error (.conflict site.tag first.name second.name site.span)
  | [d] =>
    if d.kind = .ifCond ∨ (site.previous ()).any names.continuedBy then
      .ok (attrs.replaceD d.name [(names.nameOf d.kind, d.value.map names.encoding.encode)])
    else .error (.brokenChain site.tag d.name site.span)

end Adapter

end TemplateCompiler
