/-
What each platform makes of each directive.

A dialect is a record of attribute names, encodings and ways of merging.  The adapters
ask the record and never the platform, so that a platform is its record.  Web and weex
understand most directives themselves; the three mini-program platforms have attributes
of their own for conditions and loops and take expressions between double braces.
-/
import TemplateCompiler.Target

namespace TemplateCompiler

/-- How an expression is written as an attribute value. -/
inductive Encoding
  /-- As it is. -/
  | raw
  /-- Between double braces. -/
  | braces
  deriving DecidableEq

/-- The expression as an attribute value. -/
def Encoding.encode : Encoding → String → String
  | raw, expression => expression
  | braces, expression => "\x7b\x7b" ++ expression ++ "\x7d\x7d"

/-- The attributes of conditional elements. -/
structure ConditionalNames where
  ifName : String
  elseIfName : String
  elseName : String
  encoding : Encoding
  deriving DecidableEq

/-- What becomes of a loop. -/
inductive IterationForm
  /-- It stays. -/
  | keep
  /-- It is split into attributes for the item, the index and the source. -/
  | split (itemName indexName sourceName : String) (encoding : Encoding)
  deriving DecidableEq

/-- What becomes of the binding of a property. -/
inductive BindingForm
  /-- It stays. -/
  | keep
  /-- It becomes an attribute of the property's name. -/
  | plain (encoding : Encoding)
  deriving DecidableEq

/-- What becomes of a two-way binding. -/
inductive ModelForm
  /-- A listener that is told the key, and a binding of the value. -/
  | listener (eventName valueName : String)
  /-- The key as data, the name of a listener, and the value between double braces. -/
  | dataKey (keyName eventName valueName : String)
  deriving DecidableEq

/-- Where the style text that shows or hides an element goes. -/
inductive ShowSlot
  /-- Into a binding of the style. -/
  | binding (name : String)
  /-- Into the static style. -/
  | static (name : String)
  deriving DecidableEq

/-- What becomes of a reference name. -/
inductive ReferenceForm
  /-- It is dropped. -/
  | drop
  /-- It becomes an identity attribute and a class that marks the element. -/
  | identity (idName markerClass : String)
  deriving DecidableEq

/-- How the static class, the class binding and the base classes go together. -/
inductive ClassMode
  /-- The base classes are added to the static class; the binding stays. -/
  | static
  /-- As `static`, with the binding wrapped in the call that resolves it. -/
  | proxy
  /-- All of them become one class with the binding between double braces. -/
  | fold
  deriving DecidableEq

/-- What becomes of style bindings. -/
inductive StyleMode
  /-- They are merged into a call that is handed the style options. -/
  | proxyWithConfig
  /-- They are merged into a call. -/
  | proxy
  /-- They are dropped. -/
  | drop
  deriving DecidableEq

/-- Everything that a platform makes of directives. -/
structure Dialect where
  target : Target
  isMiniProgram : Bool
  isWeex : Bool
  reference : ReferenceForm
  conditional : ConditionalNames
  iteration : IterationForm
  binding : BindingForm
  model : ModelForm
  showSlot : ShowSlot
  classMode : ClassMode
  styleMode : StyleMode
  deriving DecidableEq

namespace Dialect

/-! ### Names in the output -/

/-- The function that resolves dynamic styles. -/
def styleProxy : String := "_cmlStyleProxy"

/-- The listener of two-way bindings. -/
def modelProxy : String := "_cmlModelEventProxy"

/-- The function that resolves class bindings on weex. -/
def classProxy : String := "_weexClassProxy"

/-- The class of elements that carried a reference name. -/
def referenceMarker : String := "_cml_ref_lmc_"

/-- The class of every element. -/
def baseClass : String := "cml-base"

/-! ### The platforms -/

def web : Dialect where
  target := .web
  isMiniProgram := false
  isWeex := false
  reference := .drop
  conditional := ⟨"v-if", "v-else-if", "v-else", .raw⟩
  iteration := .keep
  binding := .keep
  model := .listener "v-on:input" "v-bind:value"
  showSlot := .binding ":style"
  classMode := .static
  styleMode := .proxyWithConfig

def weex : Dialect :=
  { web with target := .weex, isWeex := true, classMode := .proxy, styleMode := .proxy }

def wx : Dialect where
  target := .wx
  isMiniProgram := true
  isWeex := false
  reference := .identity "id" referenceMarker
  conditional := ⟨"wx:if", "wx:elif", "wx:else", .braces⟩
  iteration := .split "wx:for-item" "wx:for-index" "wx:for" .braces
  binding := .plain .braces
  model := .dataKey "data-modelkey" "bindinput" "value"
  showSlot := .static "style"
  classMode := .fold
  styleMode := .drop

/-- The event attributes of this platform are written in camel case. -/
def alipay : Dialect :=
  { wx with
    target := .alipay
    conditional := ⟨"a:if", "a:elif", "a:else", .braces⟩
    iteration := .split "a:for-item" "a:for-index" "a:for" .braces
    model := .dataKey "data-modelkey" "bindInput" "value" }

/-- Conditions and loops of this platform take expressions without braces. -/
def baidu : Dialect :=
  { wx with
    target := .baidu
    conditional := ⟨"s-if", "s-elif", "s-else", .raw⟩
    iteration := .split "s-for-item" "s-for-index" "s-for" .raw }

end Dialect

/-- The dialect of a platform. -/
def Target.dialect : Target → Dialect
  | web => .web
  | weex => .weex
  | wx => .wx
  | alipay => .alipay
  | baidu => .baidu

namespace Target

/-- The platform is one of the mini-program platforms. -/
def isMiniProgram (target : Target) : Bool := target.dialect.isMiniProgram

theorem target_dialect (target : Target) : target.dialect.target = target := by
  cases target <;> rfl

end Target

end TemplateCompiler
