/-
Reference names.

Where elements cannot be looked up by name, a reference becomes an identity, and a class
marks the element.  A blank name is dropped.
-/
import TemplateCompiler.Adapter.Basic

namespace TemplateCompiler

/-- Adds a class to the static class list, unless it is there. -/
def Attributes.addClass (attrs : Attributes) (marker : String) : Attributes :=
  match attrs.get? "class" with
  | none => attrs.insert "class" marker
  | some list =>
    if (Text.words list).contains marker then attrs
    else if Text.isBlankText list then attrs.insert "class" marker
    else attrs.insert "class" (Text.trimEnd list ++ " " ++ marker)

namespace Adapter

/-- Adapts `ref`. -/
def reference : Adapter := fun setting _ attrs =>
  match attrs.get? "ref" with
  | none => .ok attrs
  | some value =>
    let name := Text.trim value
    match setting.dialect.reference with
    | .drop => .ok (attrs.erase "ref")
    | .identity idName markerClass =>
      if name.isEmpty then .ok (attrs.erase "ref")
      else .ok ((attrs.replaceD "ref" [(idName, some name)]).addClass markerClass)

end Adapter

end TemplateCompiler
