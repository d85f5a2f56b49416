/-
The options of style processing.

Every option may be absent, and each has a value that is then used in its place.  An
option that is absent is left out of the literal that hands the options to the script.
-/
import TemplateCompiler.Script.Literal

namespace TemplateCompiler

/-- How lengths are turned into multiples of the root font size. -/
structure RemOptions where
  /-- The pixels of one unit. -/
  rootValue : Option Float
  /-- Lengths up to this are left as pixels. -/
  minPixelValue : Option Float
  deriving Inhabited

/-- The options of style processing. -/
structure StyleConfig where
  /-- Lengths become multiples of the root font size. -/
  rem : Option Bool
  /-- The factor of lengths that stay pixels. -/
  scale : Option Float
  remOptions : Option RemOptions
  /-- The browsers for which styles are to be written, if the option is there at all. -/
  browsers : Option (List String)
  deriving Inhabited

namespace StyleConfig

/-- No options. -/
def empty : StyleConfig := ⟨none, none, none, none⟩

/-! ### Values in use -/

def remEnabled (config : StyleConfig) : Bool := config.rem.getD false

def scaleInUse (config : StyleConfig) : Float := config.scale.getD 1

/-- The pixels of one unit; only a positive number is taken. -/
def rootValueInUse (config : StyleConfig) : Float :=
  match config.remOptions.bind RemOptions.rootValue with
  | some x => if x > 0 then x else 75
  | none => 75

/-- By default a length of one pixel is left alone. -/
def minPixelValueInUse (config : StyleConfig) : Float :=
  (config.remOptions.bind RemOptions.minPixelValue).getD 1.01

/-! ### The literal -/

/-- A field that is there if the option is. -/
def optionField {α : Type} (key : String) (write : α → String) (option : Option α) :
    List (String × String) :=
  option.toList.map fun x => (key, write x)

/-- The options for lengths as an object literal. -/
def remLiteral (options : RemOptions) : String :=
  Script.object (optionField "rootValue" Script.number options.rootValue ++
    optionField "minPixelValue" Script.number options.minPixelValue)

/-- The options as an object literal. -/
def literal (config : StyleConfig) : String :=
  Script.object (optionField "rem" toString config.rem ++
    optionField "scale" Script.number config.scale ++
    optionField "remOptions" remLiteral config.remOptions ++
    optionField "autoprefixOptions" (fun browsers => Script.object [("browsers", Script.array browsers)])
      config.browsers)

end StyleConfig

end TemplateCompiler
