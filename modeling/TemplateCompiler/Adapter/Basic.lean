/-
What may be looked at when an element is adapted to a platform.

An adapter turns the attributes of one element into new ones, or fails.  It sees the tag
and the span for its errors, the attributes of the nearest element before it among its
siblings, and the setting of the whole compilation.  It has no other way to reach the
tree, so an adapter changes nothing but attributes, and one that fails changes nothing.
-/
import TemplateCompiler.Directive
import TemplateCompiler.Error
import TemplateCompiler.Style.Normalize

namespace TemplateCompiler

/-- What is the same for all elements of a compilation. -/
structure Setting where
  dialect : Dialect
  style : Option StyleConfig
  /-- Writes static styles for a platform. -/
  normalizer : Target → Option StyleConfig → String → String

namespace Setting

/-- The setting for a platform, with the normalizer of this library. -/
def forTarget (target : Target) (style : Option StyleConfig) : Setting :=
  ⟨target.dialect, style, Style.normalize⟩

/-- A static style, written for the platform. -/
def normalizeStyle (setting : Setting) (style : String) : String :=
  setting.normalizer setting.dialect.target setting.style style

end Setting

/-- Where an element stands. -/
structure Site where
  tag : String
  span : Span
  /-- The attributes of the nearest element before it among its siblings, looked up only
  if an adapter asks for them. -/
  previous : Unit → Option Attributes

/-- A way of adapting the attributes of one element to a platform. -/
abbrev Adapter := Setting → Site → Attributes → Except CompileError Attributes

end TemplateCompiler
