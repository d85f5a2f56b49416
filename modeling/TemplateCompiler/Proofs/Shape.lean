/-
What a tree is, apart from where it stood in a source.

A node's shape is the node without its span.  Everything that is done to a tree is known
by what it does to shapes: a push adds one shape and appends one child, a new kind
changes one shape, and a span that is stretched changes none.  Two trees are the same
tree, in the sense of `SameTree`, if their shapes agree up to the attributes of elements;
everything that follows from links alone then agrees too.
-/
import Mathlib.Data.List.Basic
import TemplateCompiler.Markup.Document

namespace TemplateCompiler

namespace NodeKind

/-- The element that a node is, if it is one. -/
def element? : NodeKind → Option Element
  | element e => some e
  | text _ | comment _ => none

/-- What a node holds, but for attributes. -/
def bare : NodeKind → NodeKind
  | element e => element { e with attrs := .empty }
  | text content => text content
  | comment content => comment content

@[simp] theorem bare_bare (kind : NodeKind) : kind.bare.bare = kind.bare := by
  cases kind <;> rfl

end NodeKind

/-- A node without its place in the source. -/
structure NodeShape where
  kind : NodeKind
  parent : Option Nat
  children : List Nat
  deriving DecidableEq

namespace NodeShape

/-- The shape without attributes. -/
def bare (s : NodeShape) : NodeShape := { s with kind := s.kind.bare }

end NodeShape

/-- The node without its place in the source. -/
def Node.shape (n : Node) : NodeShape := ⟨n.kind, n.parent, n.children.toList⟩

/-- A node is told by its bare shape, its attributes and its place. -/
theorem Node.eq_of_bare {n n' : Node} (hbare : n'.shape.bare = n.shape.bare)
    (helement : n'.kind.element? = n.kind.element?) (hspan : n'.span = n.span) : n' = n := by
  obtain ⟨kind, parent, children, span⟩ := n
  obtain ⟨kind', parent', children', span'⟩ := n'
  obtain ⟨hkind, hparent, hchildren⟩ := NodeShape.mk.inj hbare
  have hsame : kind' = kind := by
    cases kind' <;> cases kind <;> first | cases helement; rfl | cases hkind; rfl | cases hkind
  have hlist : children' = children := Array.toList_inj.mp hchildren
  rw [hsame, hlist, show parent' = parent from hparent, show span' = span from hspan]

namespace Document

variable {d d' : Document} {id : Nat}

/-- The shape of a node, if there is a node. -/
def shape? (d : Document) (id : Nat) : Option NodeShape := (d.node? id).map Node.shape

/-! ### Reading links off shapes -/

theorem children_eq (d : Document) (id : Nat) :
    d.children id = ((d.shape? id).map NodeShape.children).getD [] := by
  unfold children shape?
  cases d.node? id <;> rfl

theorem parent?_eq (d : Document) (id : Nat) :
    d.parent? id = (d.shape? id).bind NodeShape.parent := by
  unfold parent? shape?
  cases d.node? id <;> rfl

theorem element?_eq (d : Document) (id : Nat) :
    d.element? id = (d.shape? id).bind fun s => s.kind.element? := by
  unfold element? shape?
  cases h : d.node? id with
  | none => rfl
  | some n =>
      obtain ⟨kind, parent, children, span⟩ := n
      cases kind <;> rfl

theorem lt_size_iff : id < d.size ↔ (d.shape? id).isSome = true := by
  unfold shape? node? size
  rw [Option.isSome_map]
  simp

theorem shape?_eq_none_iff : d.shape? id = none ↔ d.size ≤ id := by
  rw [← Nat.not_lt, lt_size_iff, Option.not_isSome_iff_eq_none]

/-! ### What changes do to shapes -/

theorem node?_modify (d : Document) (id i : Nat) (f : Node → Node) (h) :
    (d.modify id f h).node? i = if id = i then (d.node? i).map f else d.node? i := by
  unfold node? modify
  rw [Array.getElem?_modify]

@[simp] theorem shape?_setStop (d : Document) (id stop i : Nat) :
    (d.setStop id stop).shape? i = d.shape? i := by
  unfold shape? setStop
  rw [node?_modify]
  split
  · rw [Option.map_map]
    rfl
  · rfl

@[simp] theorem size_setStop (d : Document) (id stop : Nat) :
    (d.setStop id stop).size = d.size := size_modify ..

theorem shape?_setKind (d : Document) (id : Nat) (kind : NodeKind) (i : Nat) :
    (d.setKind id kind).shape? i
      = if id = i then (d.shape? i).map fun s => { s with kind } else d.shape? i := by
  unfold shape? setKind
  rw [node?_modify]
  split
  · rw [Option.map_map, Option.map_map]
    rfl
  · rfl

@[simp] theorem roots_setKind (d : Document) (id : Nat) (kind : NodeKind) :
    (d.setKind id kind).roots = d.roots := rfl

@[simp] theorem size_setKind (d : Document) (id : Nat) (kind : NodeKind) :
    (d.setKind id kind).size = d.size := size_modify ..

theorem children_setKind (d : Document) (id : Nat) (kind : NodeKind) (i : Nat) :
    (d.setKind id kind).children i = d.children i := by
  rw [children_eq, children_eq, shape?_setKind]
  split
  · rw [Option.map_map]
    rfl
  · rfl

theorem parent?_setKind (d : Document) (id : Nat) (kind : NodeKind) (i : Nat) :
    (d.setKind id kind).parent? i = d.parent? i := by
  rw [parent?_eq, parent?_eq, shape?_setKind]
  split
  · cases d.shape? i <;> rfl
  · rfl

@[simp] theorem spanOf_setKind (d : Document) (id : Nat) (kind : NodeKind) (i : Nat) :
    (d.setKind id kind).spanOf i = d.spanOf i := by
  unfold spanOf setKind
  rw [node?_modify]
  by_cases h : id = i
  · rw [if_pos h]
    cases d.node? i <;> rfl
  · rw [if_neg h]

/-- The list of roots after a push. -/
theorem roots_push (d : Document) (parent : Option Nat) (kind : NodeKind) (span : Span) :
    (d.push parent kind span).roots.toList
      = d.roots.toList ++ if parent = none then [d.size] else [] := by
  cases parent with
  | none => simp [push, size]
  | some p => simp [push]

/-- The shapes after a push: a new one, and one more child of the parent. -/
theorem shape?_push (d : Document) (parent : Option Nat) (kind : NodeKind) (span : Span) (i : Nat) :
    (d.push parent kind span).shape? i
      = if i = d.size then some ⟨kind, parent, []⟩
        else (d.shape? i).map fun s =>
          if parent = some i then { s with children := s.children ++ [d.size] } else s := by
  by_cases hi : i = d.size
  · rw [if_pos hi, hi]
    unfold shape?
    rw [node?_push_self]
    rfl
  · rw [if_neg hi]
    have hi' : i ≠ d.nodes.size := hi
    cases parent with
    | none =>
        unfold shape? node?
        simp only [push, Array.getElem?_push, if_neg hi']
        simp [Function.comp_def]
    | some p =>
        unfold shape? node?
        simp only [push, Array.getElem?_push, Array.size_modify, if_neg hi', Array.getElem?_modify]
        by_cases hp : p = i
        · rw [if_pos hp]
          simp [hp, Option.map_map, Function.comp_def, Node.shape, size]
        · rw [if_neg hp]
          simp [hp, Function.comp_def]

theorem parent?_push (d : Document) (parent : Option Nat) (kind : NodeKind) (span : Span)
    (i : Nat) :
    (d.push parent kind span).parent? i = if i = d.size then parent else d.parent? i := by
  rw [parent?_eq, parent?_eq, shape?_push]
  split
  · rfl
  · cases d.shape? i with
    | none => rfl
    | some s =>
        show (if parent = some i then _ else s : NodeShape).parent = s.parent
        split <;> rfl

theorem children_push (d : Document) (parent : Option Nat) (kind : NodeKind) (span : Span)
    (i : Nat) :
    (d.push parent kind span).children i
      = d.children i ++ if parent = some i ∧ i < d.size then [d.size] else [] := by
  rw [children_eq, children_eq, shape?_push]
  by_cases hi : i = d.size
  · have hnone : d.shape? i = none := shape?_eq_none_iff.mpr (Nat.le_of_eq hi.symm)
    rw [if_pos hi, hnone, if_neg (fun h => Nat.lt_irrefl _ (hi ▸ h.2))]
    rfl
  · rw [if_neg hi]
    cases hs : d.shape? i with
    | none =>
        have hlt : ¬ i < d.size := Nat.not_lt.mpr (shape?_eq_none_iff.mp hs)
        rw [if_neg (fun h => hlt h.2)]
        rfl
    | some s =>
        have hlt : i < d.size := lt_size_iff.mpr (by rw [hs]; rfl)
        by_cases hp : parent = some i
        · simp [hp, hlt]
        · simp [hp]

/-! ### The same tree with other attributes -/

/-- The same nodes with the same links and contents, where attributes may differ. -/
structure SameTree (d d' : Document) : Prop where
  roots : d'.roots = d.roots
  shape : ∀ id, (d'.shape? id).map NodeShape.bare = (d.shape? id).map NodeShape.bare

namespace SameTree

protected theorem refl (d : Document) : SameTree d d := ⟨rfl, fun _ => rfl⟩

protected theorem symm (h : SameTree d d') : SameTree d' d :=
  ⟨h.roots.symm, fun id => (h.shape id).symm⟩

protected theorem trans {d'' : Document} (h : SameTree d d') (h' : SameTree d' d'') :
    SameTree d d'' :=
  ⟨h'.roots.trans h.roots, fun id => (h'.shape id).trans (h.shape id)⟩

/-- What is read off bare shapes is the same in both trees. -/
theorem congr {α : Type} (h : SameTree d d') (f : NodeShape → α)
    (hf : ∀ s, f s.bare = f s) (id : Nat) : (d'.shape? id).map f = (d.shape? id).map f := by
  have hbare : ∀ o : Option NodeShape, o.map f = (o.map NodeShape.bare).map f := by
    intro o
    cases o with
    | none => rfl
    | some s => simp [hf]
  rw [hbare, hbare (d.shape? id), h.shape id]

theorem size_eq (h : SameTree d d') : d'.size = d.size := by
  have hlt : ∀ id, id < d'.size ↔ id < d.size := by
    intro id
    rw [lt_size_iff, lt_size_iff]
    have := congrArg Option.isSome (h.shape id)
    rw [Option.isSome_map, Option.isSome_map] at this
    rw [this]
  have h₁ := hlt d.size
  have h₂ := hlt d'.size
  omega

theorem children_eq (h : SameTree d d') (id : Nat) : d'.children id = d.children id := by
  rw [Document.children_eq, Document.children_eq, h.congr NodeShape.children (fun _ => rfl)]

theorem parent?_eq (h : SameTree d d') (id : Nat) : d'.parent? id = d.parent? id := by
  have hbind : ∀ o : Option NodeShape, o.bind NodeShape.parent = (o.map NodeShape.parent).join := by
    intro o
    cases o <;> rfl
  rw [Document.parent?_eq, Document.parent?_eq, hbind, hbind,
    h.congr NodeShape.parent (fun _ => rfl)]

theorem siblings_eq (h : SameTree d d') (id : Nat) : d'.siblings id = d.siblings id := by
  unfold siblings
  rw [h.parent?_eq id]
  cases d.parent? id with
  | none => exact congrArg Array.toList h.roots
  | some p => exact h.children_eq p

theorem isElement_eq (h : SameTree d d') (id : Nat) : d'.isElement id = d.isElement id := by
  have hsome : ∀ o : Option NodeShape, (o.bind fun s => s.kind.element?).isSome
      = ((o.map fun s => s.kind.element?.isSome).getD false) := by
    intro o
    cases o <;> rfl
  unfold isElement
  rw [element?_eq, element?_eq, hsome, hsome, h.congr (fun s => s.kind.element?.isSome)]
  intro s
  obtain ⟨kind, parent, children⟩ := s
  cases kind <;> rfl

theorem previousElement?_eq (h : SameTree d d') (id : Nat) :
    d'.previousElement? id = d.previousElement? id := by
  have hfun : d'.isElement = d.isElement := funext h.isElement_eq
  unfold previousElement?
  rw [h.siblings_eq id, hfun]

theorem subtree_eq (h : SameTree d d') (id : Nat) : d'.subtree id = d.subtree id := by
  have hstep : ∀ n id, d.size - id ≤ n → d'.subtree id = d.subtree id := by
    intro n
    induction n with
    | zero =>
        intro id hid
        have hempty : d.children id = [] := by
          rw [Document.children_eq, shape?_eq_none_iff.mpr (by omega)]
          rfl
        rw [Document.subtree_eq, Document.subtree_eq, h.children_eq, hempty]
        rfl
    | succ n ih =>
        intro id hid
        rw [Document.subtree_eq, Document.subtree_eq, h.children_eq]
        congr 1
        refine List.flatMap_congr fun c hc => ih c ?_
        have := lt_of_mem_children hc
        omega
  exact hstep _ id (Nat.le_refl _)

theorem preorder_eq (h : SameTree d d') : d'.preorder = d.preorder := by
  have hfun : d'.subtree = d.subtree := funext h.subtree_eq
  unfold preorder
  rw [walk_eq_flatMap, walk_eq_flatMap, h.roots, hfun]

/-- Two trees with the same attributes, at the same places of a source, do not differ. -/
theorem eq (h : SameTree d d') (hspan : ∀ id, d'.spanOf id = d.spanOf id)
    (helement : ∀ id, d'.element? id = d.element? id) : d' = d := by
  have hnode : ∀ id, d'.node? id = d.node? id := by
    intro id
    have hbare := h.shape id
    have hkind := helement id
    have hplace := hspan id
    rw [Document.element?_eq, Document.element?_eq] at hkind
    unfold shape? at hbare hkind
    unfold spanOf at hplace
    cases hn : d.node? id with
    | none =>
        rw [hn, Option.map_none, Option.map_none, Option.map_eq_none_iff,
          Option.map_eq_none_iff] at hbare
        exact hbare
    | some n =>
        rw [hn] at hbare hkind hplace
        obtain ⟨s, hs, hbare⟩ := Option.map_eq_some_iff.mp hbare
        obtain ⟨n', hn', rfl⟩ := Option.map_eq_some_iff.mp hs
        rw [hn'] at hkind hplace ⊢
        exact congrArg some (Node.eq_of_bare hbare hkind hplace)
  obtain ⟨nodes, roots, younger⟩ := d
  obtain ⟨nodes', roots', younger'⟩ := d'
  obtain rfl : nodes' = nodes := Array.ext_getElem? hnode
  obtain rfl : roots' = roots := h.roots
  rfl

end SameTree

end Document

end TemplateCompiler
