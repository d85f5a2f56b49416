/-
Styles: the bindings and the static style.

All bindings of the style are merged into one call that stands where the first of them
stood.  A single binding that is such a call already is left alone, so that merging again
changes nothing.  The static style is written for the platform, unless it is blank.
-/
import TemplateCompiler.Adapter.Basic
import TemplateCompiler.Script.Interpolation

namespace TemplateCompiler

/-- The name of the merged binding. -/
def styleBindingName : String := "v-bind:style"

/-- The expression of a binding, where text with interpolations is made an expression. -/
def styleOperand (d : Directive) : String :=
  let expression := Text.trim d.expression
  if Text.holds "\x7b\x7b" expression then Script.ofInterpolated expression else expression

/-- The expressions of the bindings that have one. -/
def styleOperands (bindings : List Directive) : List String :=
  (bindings.filter fun d => !Text.isBlankText d.expression).map styleOperand

/-- The text of all expressions together. -/
def joinStyles : List String → String
  | [operand] => operand
  | operands => "+';'+".intercalate (operands.map fun operand => "(" ++ operand ++ ")")

/-- The call that resolves a dynamic style. -/
def styleCall (mode : StyleMode) (config : Option StyleConfig) (expression : String) : String :=
  match mode, config with
  | .proxyWithConfig, some config =>
    Dialect.styleProxy ++ "((" ++ expression ++ ")," ++ config.literal ++ ")"
  | _, _ => Dialect.styleProxy ++ "((" ++ expression ++ "))"

/-- One binding that is a call already. -/
def isStyleCall (bindings : List Directive) (operands : List String) : Bool :=
  match bindings, operands with
  | [_], [operand] => Text.beginsWith (Dialect.styleProxy ++ "(") operand
  | _, _ => false

namespace Adapter

/-- Takes all attributes of the directives away. -/
def eraseAll (ds : List Directive) (attrs : Attributes) : Attributes :=
  ds.foldl (fun attrs d => attrs.erase d.name) attrs

/-- Merges the bindings into one. -/
def mergeStyleBindings (mode : StyleMode) (config : Option StyleConfig) (bindings : List Directive)
    (attrs : Attributes) : Attributes :=
  let operands := styleOperands bindings
  match bindings with
  | [] => attrs
  | first :: others =>
    if isStyleCall bindings operands then attrs
    else if operands.isEmpty then eraseAll bindings attrs
    else
      (eraseAll others attrs).replaceD first.name
        [(styleBindingName, some (styleCall mode config (joinStyles operands)))]

/-- Adapts the bindings of the style. -/
def styleBindings (mode : StyleMode) (config : Option StyleConfig) (attrs : Attributes) : Attributes :=
  let bindings := attrs.directivesOf .styleBinding
  match mode with
  | .drop => eraseAll bindings attrs
  | mode => mergeStyleBindings mode config bindings attrs

/-- Writes the static style for the platform. -/
def staticStyle (setting : Setting) (attrs : Attributes) : Attributes :=
  match attrs.get? "style" with
  | none => attrs
  | some style =>
    let normalized := setting.normalizeStyle style
    if Text.isBlankText style || normalized == style then attrs
    else attrs.insert "style" normalized

/-- Adapts the bindings of the style and the static style. -/
def styles : Adapter := fun setting _ attrs =>
  .ok (staticStyle setting (styleBindings setting.dialect.styleMode setting.style attrs))

end Adapter

end TemplateCompiler
