/-
The passes as programs that change the tree in place.

An adapter answers with attributes and cannot leave an element half adapted.  Here the same
passes are programs over one tree, which they look at and change as they go and which they may
leave by an error at any point; the tree is then as it was left.  A check may follow a change
in such a program, and the element before among the siblings is looked up in the tree as it is
by then.

An operation on the attributes of the element is one step.  It cannot fail.
-/
import TemplateCompiler.Pipeline

namespace TemplateCompiler

/-- A program that looks at a tree and changes it.  What it has changed stays if it fails. -/
abbrev InPlace := EStateM CompileError Document

namespace InPlace

/-- The element, as it is now. -/
def element? (id : Nat) : InPlace (Option Element) := fun d => .ok (d.element? id) d

/-- The span of a node. -/
def spanOf (id : Nat) : InPlace Span := fun d => .ok (d.spanOf id) d

/-- The attributes that the nearest element before it among its siblings has now. -/
def previous? (id : Nat) : InPlace (Option Attributes) := fun d =>
  .ok ((d.previousElement? id).bind fun p => (d.element? p).map Element.attrs) d

/-- Changes the attributes of an element. -/
def change (id : Nat) (f : Attributes → Attributes) : InPlace Unit := fun d =>
  match d.element? id with
  | none => .ok () d
  | some e => .ok () (d.setAttributes id (f e.attrs))

/-! ### Passes that do not fail -/

def reference (setting : Setting) (id : Nat) : InPlace Unit := do
  match ← element? id with
  | none => return
  | some e =>
    match e.attrs.get? "ref" with
    | none => return
    | some value =>
      let name := Text.trim value
      match setting.dialect.reference with
      | .drop => change id (·.erase "ref")
      | .identity idName markerClass =>
        if name.isEmpty then change id (·.erase "ref")
        else
          change id (·.replaceD "ref" [(idName, some name)])
          change id (·.addClass markerClass)

def model (setting : Setting) (id : Nat) : InPlace Unit := do
  match ← element? id with
  | none => return
  | some e =>
    match e.attrs.directive? .model with
    | none => return
    | some d =>
      let key := Text.trim d.expression
      if key.isEmpty then change id (·.erase d.name)
      else change id (·.replaceD d.name (setting.dialect.model.attributes key))

def classes (setting : Setting) (id : Nat) : InPlace Unit := do
  match ← element? id with
  | none => return
  | some e =>
    let base := baseClasses e.tag
    let binding := e.attrs.directive? .classBinding
    match setting.dialect.classMode with
    | .static => change id (Adapter.mergeClass base binding)
    | .proxy =>
      change id (Adapter.mergeClass base binding)
      change id (Adapter.wrapClassBinding binding)
    | .fold => change id (Adapter.foldClass base binding)

/-- Merges the bindings of the style or drops them one by one. -/
def styleBindings (setting : Setting) (id : Nat) (bindings : List Directive) : InPlace Unit :=
  match setting.dialect.styleMode with
  | .drop => bindings.forM fun d => change id (·.erase d.name)
  | mode => change id (Adapter.mergeStyleBindings mode setting.style bindings)

/-- Writes the static style for the platform. -/
def staticStyle (setting : Setting) (id : Nat) : InPlace Unit := do
  match ← element? id with
  | none => return
  | some e =>
    match e.attrs.get? "style" with
    | none => return
    | some style =>
      let normalized := setting.normalizeStyle style
      if Text.isBlankText style || normalized == style then return
      else change id (·.insert "style" normalized)

def styles (setting : Setting) (id : Nat) : InPlace Unit := do
  match ← element? id with
  | none => return
  | some e =>
    styleBindings setting id (e.attrs.directivesOf .styleBinding)
    staticStyle setting id

/-! ### Passes that may fail -/

/-- Replaces the bindings of properties one by one. -/
def properties (form : BindingForm) (id : Nat) (bindings : List Directive) : InPlace Unit :=
  match form with
  | .keep => return
  | .plain encoding => bindings.forM fun d =>
      change id fun attrs => Adapter.plainBinding encoding attrs d

/-- Puts the style text of a `v-show` into its slot, in two steps where there is something in it. -/
def intoSlot (slot : ShowSlot) (id : Nat) (e : Element) (name text : String) : InPlace Unit := do
  match slot with
  | .binding slotName =>
    if e.attrs.contains slotName then
      change id fun attrs => (attrs.rename slotName (longBindingName slotName)).getD attrs
    change id (·.replaceD name [(slotName, some text)])
  | .static slotName =>
    let existing := Text.trim ((e.attrs.get? slotName).getD "")
    if existing.isEmpty then change id (·.replaceD name [(slotName, some text)])
    else
      change id (·.insert slotName (withoutFinalSemicolons existing ++ ";" ++ text))
      change id (·.erase name)

/-- Adapts the first `v-show`. -/
def showing (slot : ShowSlot) (id : Nat) : InPlace Unit := do
  match ← element? id with
  | none => return
  | some e =>
    match e.attrs.directive? .showIf with
    | none => return
    | some d =>
      let expression := Text.trim d.expression
      if expression.isEmpty then change id (·.erase d.name)
      else intoSlot slot id e d.name (showStyle expression)

/-- The spellings are checked, the bindings of properties are replaced one by one, and only then a
`v-show` is looked for. -/
def binding (setting : Setting) (id : Nat) : InPlace Unit := do
  match ← element? id with
  | none => return
  | some e =>
    let span ← spanOf id
    match e.attrs.doubleBinding? with
    | some (long, short) => throw (.conflict e.tag long short span)
    | none =>
      properties setting.dialect.binding id (e.attrs.directivesOf .bind)
      showing setting.dialect.showSlot id

def conditional (setting : Setting) (id : Nat) : InPlace Unit := do
  match ← element? id with
  | none => return
  | some e =>
    let span ← spanOf id
    let names := setting.dialect.conditional
    match e.attrs.conditionals with
    | [] => return
    | first :: second :: _ => throw (.conflict e.tag first.name second.name span)
    | [d] =>
      if d.kind ≠ .ifCond then
        let previous ← previous? id
        if !previous.any names.continuedBy then throw (.brokenChain e.tag d.name span)
      change id (·.replaceD d.name [(names.nameOf d.kind, d.value.map names.encoding.encode)])

def iteration (setting : Setting) (id : Nat) : InPlace Unit := do
  match ← element? id with
  | none => return
  | some e =>
    let span ← spanOf id
    match e.attrs.directive? .forEach with
    | none => return
    | some d =>
      match Iteration.parse? d.expression with
      | none => throw (.badIteration e.tag d.expression span)
      | some it =>
        match setting.dialect.iteration with
        | .keep => return
        | .split itemName indexName sourceName encoding =>
          if !it.isSplittable then throw (.badIteration e.tag d.expression span)
          change id (·.replaceD d.name (it.attributes itemName indexName sourceName encoding))

end InPlace

namespace Pass

/-- What the pass does to one element of a tree. -/
def inPlace : Pass → Setting → Nat → InPlace Unit
  | ref => .reference
  | model => .model
  | binding => .binding
  | conditional => .conditional
  | iteration => .iteration
  | classes => .classes
  | styles => .styles

/-- Does it to every element, in preorder, until one fails. -/
def runInPlace (pass : Pass) (setting : Setting) : InPlace Unit := do
  let d ← get
  d.preorder.forM fun id => do
    if (← InPlace.element? id).isSome then pass.inPlace setting id

end Pass

end TemplateCompiler
