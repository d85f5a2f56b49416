/-
Classes: the static list, the binding, and the base classes of every element.

The base classes of a tag are two words, put at the end of the static list unless they
already stand there.  The number of blanks between the parts is part of the format: three
before the base classes if a binding stays beside the list, two if it is folded into it,
and one if there is none.
-/
import TemplateCompiler.Adapter.Basic

namespace TemplateCompiler

/-- The base classes of an element. -/
def baseClasses (tag : String) : String := Dialect.baseClass ++ " cml-" ++ tag

/-- The list ends with the base classes. -/
def endsWithBase (list base : String) : Bool :=
  (Text.words base).isSuffixOf (Text.words list)

/-- The call that resolves a class binding, unless the expression is one already. -/
def classCall (expression : String) : String :=
  if Text.beginsWith (Dialect.classProxy ++ "(") expression then expression
  else Dialect.classProxy ++ "((" ++ expression ++ "))"

namespace Adapter

/-- Adds the base classes to the static list.  A list that is new stands directly before
the binding. -/
def mergeClass (base : String) (binding : Option Directive) (attrs : Attributes) : Attributes :=
  let list := (attrs.get? "class").getD ""
  if endsWithBase list base then attrs
  else
    match binding with
    | none => attrs.insert "class" (list ++ " " ++ base)
    | some d =>
      let value := list ++ "   " ++ base
      if attrs.contains "class" then attrs.insert "class" value
      else attrs.insertBefore d.name "class" value

/-- Wraps the binding in the call that resolves it. -/
def wrapClassBinding (binding : Option Directive) (attrs : Attributes) : Attributes :=
  match binding with
  | none => attrs
  | some d =>
    let expression := Text.trim d.expression
    if Text.beginsWith (Dialect.classProxy ++ "(") expression then attrs
    else attrs.insert d.name (classCall expression)

/-- Makes one class of the binding, the static list and the base classes. -/
def foldClass (base : String) (binding : Option Directive) (attrs : Attributes) : Attributes :=
  let list := (attrs.get? "class").getD ""
  match binding with
  | none => if endsWithBase list base then attrs else attrs.insert "class" (list ++ " " ++ base)
  | some d =>
    let front := Encoding.braces.encode d.expression ++ " " ++ list
    let value := if endsWithBase list base then front else front ++ "  " ++ base
    if attrs.contains "class" then (attrs.insert "class" value).erase d.name
    else attrs.replaceD d.name [("class", some value)]

/-- Adapts the static class and the first class binding. -/
def classes : Adapter := fun setting site attrs =>
  let base := baseClasses site.tag
  let binding := attrs.directive? .classBinding
  match setting.dialect.classMode with
  | .static => .ok (mergeClass base binding attrs)
  | .proxy => .ok (wrapClassBinding binding (mergeClass base binding attrs))
  | .fold => .ok (foldClass base binding attrs)

end Adapter

end TemplateCompiler
