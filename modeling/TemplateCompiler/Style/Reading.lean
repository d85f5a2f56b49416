/-
The options of style processing, read from JSON.

Keys that are no options are passed over, and an option that is null is absent.  The list
of browsers is the exception: it may be missing, and is empty then, but not null.
-/
import TemplateCompiler.Json.Record
import TemplateCompiler.Style.Config

namespace TemplateCompiler

namespace RemOptions

/-- The options that a value gives. -/
def ofJson? (value : Json.Value) : Option RemOptions :=
  match Json.RecordShape.read? ⟨["rootValue", "minPixelValue"], true, 0⟩ value with
  | some [rootValue, minPixelValue] => do
    return ⟨← Json.optional Json.Value.float? rootValue, ← Json.optional Json.Value.float? minPixelValue⟩
  | _ => none

end RemOptions

namespace StyleConfig

/-- The browsers that a value names. -/
def browsersOfJson? (value : Json.Value) : Option (List String) :=
  match Json.RecordShape.read? ⟨["browsers"], true, 0⟩ value with
  | some [browsers] => Json.withDefault [] Json.Value.texts? browsers
  | _ => none

/-- The options that a value gives. -/
def ofJson? (value : Json.Value) : Option StyleConfig :=
  match Json.RecordShape.read? ⟨["rem", "scale", "remOptions", "autoprefixOptions"], true, 0⟩ value with
  | some [rem, scale, remOptions, autoprefixOptions] => do
    return ⟨← Json.optional Json.Value.bool? rem, ← Json.optional Json.Value.float? scale,
      ← Json.optional RemOptions.ofJson? remOptions, ← Json.optional browsersOfJson? autoprefixOptions⟩
  | _ => none

end StyleConfig

end TemplateCompiler
