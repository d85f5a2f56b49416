/-
Bindings of properties, and directives that show or hide an element.

A property bound in both spellings is an error.  Where the platform has no bindings, each
becomes an attribute of the property's name, put where the binding stands; an attribute
of that name elsewhere gives way.

Showing and hiding becomes style text that takes the element out of the layout when the
expression is false.  Where the text goes into a binding of the style, a binding of the
author's in the same spelling is renamed to the long one, and the adapter of styles merges
the two.
-/
import TemplateCompiler.Adapter.Basic

namespace TemplateCompiler

/-- The long spelling of a binding. -/
def longBindingName (name : String) : String :=
  match Text.after? ":" name with
  | some property => "v-bind:" ++ property
  | none => name

/-- A binding that is written in both spellings: the long and the short one. -/
def Attributes.doubleBinding? (attrs : Attributes) : Option (String × String) :=
  attrs.names.findSome? fun name =>
    match Text.after? ":" name with
    | none => none
    | some property =>
      let long := "v-bind:" ++ property
      if attrs.contains long then some (long, name) else none

/-- The style text that hides an element unless the expression holds. -/
def showStyle (expression : String) : String :=
  "display:" ++ Encoding.braces.encode (expression ++ "?'':'none'") ++ ";" ++
    Encoding.braces.encode (expression ++ "?'':'height:0px;width:0px;overflow:hidden'")

/-- The text without semicolons at the end. -/
def withoutFinalSemicolons (s : String) : String :=
  String.ofList (Text.dropEndWhile (· == ';') s.toList)

namespace Adapter

/-- Replaces one binding by an attribute of its property's name. -/
def plainBinding (encoding : Encoding) (attrs : Attributes) (d : Directive) : Attributes :=
  match d.arg with
  | none => attrs
  | some property => attrs.replaceD d.name [(property, d.value.map encoding.encode)]

/-- Adapts the bindings of properties other than class and style. -/
def properties (form : BindingForm) (attrs : Attributes) : Attributes :=
  match form with
  | .keep => attrs
  | .plain encoding => (attrs.directivesOf .bind).foldl (plainBinding encoding) attrs

/-- Puts the style text of a `v-show` into its slot. -/
def intoSlot (slot : ShowSlot) (name text : String) (attrs : Attributes) : Attributes :=
  match slot with
  | .binding slotName =>
    let renamed := (attrs.rename slotName (longBindingName slotName)).getD attrs
    renamed.replaceD name [(slotName, some text)]
  | .static slotName =>
    let existing := Text.trim ((attrs.get? slotName).getD "")
    if existing.isEmpty then attrs.replaceD name [(slotName, some text)]
    else (attrs.insert slotName (withoutFinalSemicolons existing ++ ";" ++ text)).erase name

/-- Adapts the first `v-show`. -/
def showing (slot : ShowSlot) (attrs : Attributes) : Attributes :=
  match attrs.directive? .showIf with
  | none => attrs
  | some d =>
    let expression := Text.trim d.expression
    if expression.isEmpty then attrs.erase d.name
    else intoSlot slot d.name (showStyle expression) attrs

/-- Adapts bindings of properties and `v-show`. -/
def binding : Adapter := fun setting site attrs =>
  match attrs.doubleBinding? with
  | some (long, short) => .error (.conflict site.tag long short site.span)
  | none => .ok (showing setting.dialect.showSlot (properties setting.dialect.binding attrs))

end Adapter

end TemplateCompiler
