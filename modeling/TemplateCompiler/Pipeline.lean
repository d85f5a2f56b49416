/-
Adapting a whole tree.

A pass applies one adapter to every element in preorder, and a pipeline is a list of
passes.  Both stop at the first element that fails; the tree is then as it was left, with
the elements before that one adapted.

The standard order has its reasons: references come first, because they add a class;
two-way bindings and bindings come before classes and styles, because they write the
attributes that those merge.
-/
import TemplateCompiler.Markup.Document
import TemplateCompiler.Adapter.Binding
import TemplateCompiler.Adapter.Class
import TemplateCompiler.Adapter.Conditional
import TemplateCompiler.Adapter.Iteration
import TemplateCompiler.Adapter.Model
import TemplateCompiler.Adapter.Reference
import TemplateCompiler.Adapter.Style

namespace TemplateCompiler

/-- A tree with the error, if any, that stopped the work on it. -/
structure Progress where
  document : Document
  error : Option CompileError

namespace Document

/-- Where an element stands. -/
def siteOf (d : Document) (id : Nat) (e : Element) : Site where
  tag := e.tag
  span := d.spanOf id
  previous _ := (d.previousElement? id).bind fun p => (d.element? p).map Element.attrs

/-- Adapts one node, if it is an element. -/
def adaptAt (adapter : Adapter) (setting : Setting) (d : Document) (id : Nat) :
    Except CompileError Document :=
  match d.element? id with
  | none => .ok d
  | some e => (adapter setting (d.siteOf id e) e.attrs).map (d.setAttributes id)

/-- Adapts the nodes one after the other. -/
def adaptEach (adapter : Adapter) (setting : Setting) : Document → List Nat → Progress
  | d, [] => ⟨d, none⟩
  | d, id :: ids =>
    match d.adaptAt adapter setting id with
    | .ok d => adaptEach adapter setting d ids
    | .error error => ⟨d, some error⟩

/-- Adapts every element in preorder. -/
def adaptAll (adapter : Adapter) (setting : Setting) (d : Document) : Progress :=
  adaptEach adapter setting d d.preorder

end Document

/-- A pass over the tree, named for the directives that it adapts. -/
inductive Pass
  | ref
  | model
  | binding
  | conditional
  | iteration
  | classes
  | styles
  deriving DecidableEq

namespace Pass

/-- Every pass, in the standard order. -/
def standard : List Pass := [ref, model, binding, conditional, iteration, classes, styles]

def name : Pass → String
  | ref => "ref"
  | model => "model"
  | binding => "binding"
  | conditional => "conditional"
  | iteration => "iteration"
  | classes => "class"
  | styles => "style"

/-- The pass of this name. -/
def ofName? (name : String) : Option Pass := standard.find? fun pass => pass.name == name

/-- What the pass does to an element. -/
def adapter : Pass → Adapter
  | ref => .reference
  | model => .model
  | binding => .binding
  | conditional => .conditional
  | iteration => .iteration
  | classes => .classes
  | styles => .styles

/-- Applies the pass to every element. -/
def run (pass : Pass) (setting : Setting) (d : Document) : Progress :=
  d.adaptAll pass.adapter setting

end Pass

/-- Passes in their order. -/
abbrev Pipeline := List Pass

namespace Pipeline

/-- Applies the passes one after the other. -/
def run (setting : Setting) : Pipeline → Document → Progress
  | [], d => ⟨d, none⟩
  | pass :: passes, d =>
    match pass.run setting d with
    | ⟨d, none⟩ => run setting passes d
    | stopped => stopped

/-- The names of the passes as a list between brackets. -/
def describe (pipeline : Pipeline) : String :=
  "[" ++ ", ".intercalate (pipeline.map fun pass => "\"" ++ pass.name ++ "\"") ++ "]"

end Pipeline

/-- Adapts a tree by all passes. -/
def Document.adapt (setting : Setting) (d : Document) : Progress :=
  Pipeline.run setting Pass.standard d

end TemplateCompiler
