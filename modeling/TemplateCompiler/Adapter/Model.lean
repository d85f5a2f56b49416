/-
Two-way bindings.

The key is the trimmed expression.  It is handed to a listener of input, and the value of
the element is bound to it.  A blank expression is dropped.
-/
import TemplateCompiler.Adapter.Basic

namespace TemplateCompiler

/-- The attributes that stand for a two-way binding of `key`. -/
def ModelForm.attributes (form : ModelForm) (key : String) : List Attribute :=
  match form with
  | .listener eventName valueName =>
    [(eventName, some (Dialect.modelProxy ++ "($event," ++ Script.quote key ++ ")")),
      (valueName, some key)]
  | .dataKey keyName eventName valueName =>
    [(keyName, some key), (eventName, some Dialect.modelProxy),
      (valueName, some (Encoding.braces.encode key))]

namespace Adapter

/-- Adapts the first `v-model`. -/
def model : Adapter := fun setting _ attrs =>
  match attrs.directive? .model with
  | none => .ok attrs
  | some d =>
    let key := Text.trim d.expression
    if key.isEmpty then .ok (attrs.erase d.name)
    else .ok (attrs.replaceD d.name (setting.dialect.model.attributes key))

end Adapter

end TemplateCompiler
