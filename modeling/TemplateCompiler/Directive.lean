/-
Directives, read off the names of attributes.

An element stores no directives.  Which attribute is one, and of what kind, follows from
its name alone: a few fixed names, names that begin with `v-`, and bindings, which are
written `v-bind:` or `:` followed by the property that is bound.  What follows a full stop
in the name is a modifier.  A binding whose property is computed, written in brackets, is
no directive, because no attribute of a fixed name can stand for it.
-/
import TemplateCompiler.Markup.Attributes
import TemplateCompiler.Text.Search

namespace TemplateCompiler

/-- The kinds of directives, the static class and style among them. -/
inductive DirectiveKind
  | ref
  | ifCond
  | elseIf
  | otherwise
  | forEach
  | bind
  | model
  | showIf
  | staticClass
  | classBinding
  | staticStyle
  | styleBinding
  deriving DecidableEq

/-- A directive as it stands on an element. -/
structure Directive where
  kind : DirectiveKind
  /-- The whole name of the attribute. -/
  name : String
  /-- The bound property. -/
  arg : Option String
  /-- The modifiers, in order. -/
  modifiers : List String
  /-- The value of the attribute, which is absent if it is bare. -/
  value : Option String
  deriving DecidableEq

namespace Directive

/-- The expression; that of a bare attribute is empty. -/
def expression (d : Directive) : String := d.value.getD ""

def isBare (d : Directive) : Bool := d.value.isNone

/-- A name without its modifiers, and the modifiers. -/
def splitModifiers (name : String) : String × List String :=
  match name.toList.splitOn '.' with
  | [] => ("", [])
  | base :: modifiers => (String.ofList base, modifiers.map String.ofList)

/-- What follows the mark of a binding. -/
def boundName? (name : String) : Option String :=
  Text.after? "v-bind:" name <|> Text.after? ":" name

/-- The kind of a binding of the property. -/
def kindOfBinding (property : String) : DirectiveKind :=
  if property = "class" then .classBinding
  else if property = "style" then .styleBinding
  else .bind

/-- The kind that is written after `v-`. -/
def kindOfWord? (word : String) : Option DirectiveKind :=
  match word with
  | "if" => some .ifCond
  | "else-if" => some .elseIf
  | "else" => some .otherwise
  | "for" => some .forEach
  | "model" => some .model
  | "show" => some .showIf
  | _ => none

/-- The directive that an attribute is, if it is one. -/
def ofAttribute? (attr : Attribute) : Option Directive :=
  let (name, value) := attr
  if name = "ref" then some ⟨.ref, name, none, [], value⟩
  else if name = "class" then some ⟨.staticClass, name, none, [], value⟩
  else if name = "style" then some ⟨.staticStyle, name, none, [], value⟩
  else
    match boundName? name with
    | some bound =>
      let (property, modifiers) := splitModifiers bound
      if property = "" ∨ Text.beginsWith "[" property then none
      else some ⟨kindOfBinding property, name, some property, modifiers, value⟩
    | none =>
      (Text.after? "v-" name).bind fun rest =>
        let (word, modifiers) := splitModifiers rest
        (kindOfWord? word).map fun kind => ⟨kind, name, none, modifiers, value⟩

end Directive

namespace Attributes

/-- The directives on an element, in the order of its attributes. -/
def directives (attrs : Attributes) : List Directive :=
  attrs.entries.filterMap Directive.ofAttribute?

/-- The directives of one kind. -/
def directivesOf (attrs : Attributes) (kind : DirectiveKind) : List Directive :=
  attrs.directives.filter fun d => d.kind = kind

/-- The first directive of one kind. -/
def directive? (attrs : Attributes) (kind : DirectiveKind) : Option Directive :=
  attrs.directives.find? fun d => d.kind = kind

end Attributes

end TemplateCompiler
