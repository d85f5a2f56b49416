/-
The tree of a template.

All nodes lie in one array and refer to their parent and children by index.  A node is
always pushed after its parent, so a child's index is larger than its parent's; this is
the one invariant of the type, and every walk down the tree ends because of it.  A walk
with a stack of pending nodes ends because the nodes below the stack become fewer, which
is what `weight` counts.

Links to parents serve to find the siblings of a node; they own nothing.
-/
import TemplateCompiler.Markup.Attributes
import TemplateCompiler.Markup.Position

namespace TemplateCompiler

/-- How an element's start tag ends, and with it whether the element has content. -/
inductive Closing
  /-- `<tag>`, closed by an end tag. -/
  | normal
  /-- `<tag />` -/
  | selfClosing
  /-- `<tag>` of an element that has no end tag. -/
  | void
  deriving DecidableEq, Inhabited

/-- An element without its content. -/
structure Element where
  tag : String
  attrs : Attributes
  closing : Closing
  deriving DecidableEq, Inhabited

/-- What a node holds. -/
inductive NodeKind
  | element (e : Element)
  /-- Text as it is written, interpolations included. -/
  | text (content : String)
  /-- What stands between the marks of a comment. -/
  | comment (content : String)
  deriving DecidableEq, Inhabited

/-- A node with its links. -/
structure Node where
  kind : NodeKind
  parent : Option Nat
  children : Array Nat
  span : Span
  deriving DecidableEq, Inhabited

/-- A forest of nodes, each referred to by its index. -/
structure Document where
  nodes : Array Node
  roots : Array Nat
  /-- Children come after their parent. -/
  younger : ∀ (id : Nat) (n : Node), nodes[id]? = some n → ∀ c ∈ n.children, id < c

namespace Document

/-! ### Looking at nodes -/

/-- The document without nodes. -/
def empty : Document := ⟨#[], #[], by simp⟩

def size (d : Document) : Nat := d.nodes.size

def node? (d : Document) (id : Nat) : Option Node := d.nodes[id]?

def element? (d : Document) (id : Nat) : Option Element :=
  match d.node? id with
  | some { kind := .element e, .. } => some e
  | _ => none

def isElement (d : Document) (id : Nat) : Bool := (d.element? id).isSome

/-- The children in order; none for an index without a node. -/
def children (d : Document) (id : Nat) : List Nat :=
  match d.node? id with
  | some n => n.children.toList
  | none => []

def parent? (d : Document) (id : Nat) : Option Nat := (d.node? id).bind Node.parent

/-- The span of a node; the empty one for an index without a node. -/
def spanOf (d : Document) (id : Nat) : Span :=
  match d.node? id with
  | some n => n.span
  | none => .detached

/-- The list that a node stands in: its parent's children, or the roots. -/
def siblings (d : Document) (id : Nat) : List Nat :=
  match d.parent? id with
  | some p => d.children p
  | none => d.roots.toList

/-- The nearest sibling before a node that is an element. -/
def previousElement? (d : Document) (id : Nat) : Option Nat :=
  let siblings := d.siblings id
  if siblings.contains id then (siblings.takeWhile (· != id)).reverse.find? d.isElement else none

/-! ### Changing nodes

None of these takes a node away or moves one, so indices stay good.
-/

/-- Applies `f` to a node, where `f` keeps the children. -/
def modify (d : Document) (id : Nat) (f : Node → Node)
    (children_f : ∀ n, (f n).children = n.children) : Document where
  nodes := d.nodes.modify id f
  roots := d.roots
  younger := by
    intro i n h c hc
    rw [Array.getElem?_modify] at h
    split at h
    · obtain ⟨m, hm, rfl⟩ := Option.map_eq_some_iff.1 h
      rw [children_f] at hc
      exact d.younger i m hm c hc
    · exact d.younger i n h c hc

/-- Replaces what a node holds. -/
def setKind (d : Document) (id : Nat) (kind : NodeKind) : Document :=
  d.modify id (fun n => { n with kind }) fun _ => rfl

/-- Moves the end of a node's span. -/
def setStop (d : Document) (id : Nat) (stop : Nat) : Document :=
  d.modify id (fun n => { n with span := { n.span with stop } }) fun _ => rfl

/-- Replaces the attributes, if the node is an element. -/
def setAttributes (d : Document) (id : Nat) (attrs : Attributes) : Document :=
  match d.element? id with
  | some e => d.setKind id (.element { e with attrs })
  | none => d

/-- Adds a node as the last child of `parent`, or as the last root.  Its index is the
number of nodes before. -/
def push (d : Document) (parent : Option Nat) (kind : NodeKind) (span : Span) : Document :=
  let node : Node := { kind, parent, children := #[], span }
  match parent with
  | none =>
    { nodes := d.nodes.push node
      roots := d.roots.push d.nodes.size
      younger := by
        intro i n h c hc
        rw [Array.getElem?_push] at h
        split at h
        · cases h
          simp [node] at hc
        · exact d.younger i n h c hc }
  | some p =>
    { nodes :=
        (d.nodes.modify p fun n => { n with children := n.children.push d.nodes.size }).push node
      roots := d.roots
      younger := by
        intro i n h c hc
        rw [Array.getElem?_push] at h
        split at h
        · cases h
          simp [node] at hc
        · rw [Array.getElem?_modify] at h
          split at h
          · obtain ⟨m, hm, rfl⟩ := Option.map_eq_some_iff.1 h
            have hi : i < d.nodes.size := (Array.getElem?_eq_some_iff.1 hm).1
            rcases Array.mem_push.1 hc with hc | rfl
            · exact d.younger i m hm c hc
            · exact hi
          · exact d.younger i n h c hc }

/-! ### Walking -/

/-- A child's index is larger. -/
theorem lt_of_mem_children {d : Document} {id c : Nat} (h : c ∈ d.children id) : id < c := by
  unfold children node? at h
  split at h
  · rename_i n hn
    exact d.younger id n hn c (by simpa using h)
  · cases h

/-- Only an index with a node has children. -/
theorem lt_size_of_mem_children {d : Document} {id c : Nat} (h : c ∈ d.children id) :
    id < d.size := by
  unfold children node? at h
  split at h
  · rename_i n hn
    exact (Array.getElem?_eq_some_iff.1 hn).1
  · cases h

/-- The sum of natural numbers. -/
def total : List Nat → Nat
  | [] => 0
  | n :: rest => n + total rest

theorem total_append (ns ms : List Nat) : total (ns ++ ms) = total ns + total ms := by
  induction ns with
  | nil => simp [total]
  | cons n rest ih =>
    simp only [List.cons_append, total, ih]
    omega

/-- The number of nodes that a walk from `id` meets. -/
def weight (d : Document) (id : Nat) : Nat :=
  1 + total ((d.children id).attach.map fun c => d.weight c.1)
termination_by d.size - id
decreasing_by
  have := lt_of_mem_children c.2
  have := lt_size_of_mem_children c.2
  omega

theorem weight_eq (d : Document) (id : Nat) :
    d.weight id = 1 + total ((d.children id).map d.weight) := by
  rw [weight, List.attach_map_val]

/-- The nodes met from the top of a stack of pending ones; a node's children are put on
the stack in its place. -/
def walk (d : Document) : List Nat → List Nat
  | [] => []
  | id :: pending => id :: d.walk (d.children id ++ pending)
termination_by pending => total (pending.map d.weight)
decreasing_by
  rw [List.map_append, total_append, List.map_cons, total, weight_eq d id]
  omega

/-- A node with everything below it, said without a stack. -/
def subtree (d : Document) (id : Nat) : List Nat :=
  id :: (d.children id).attach.flatMap fun c => d.subtree c.1
termination_by d.size - id
decreasing_by
  have := lt_of_mem_children c.2
  have := lt_size_of_mem_children c.2
  omega

/-- All nodes, each before its content and the content in order. -/
def preorder (d : Document) : List Nat := d.walk d.roots.toList

/-! ### Small laws -/

theorem subtree_eq (d : Document) (id : Nat) :
    d.subtree id = id :: (d.children id).flatMap d.subtree := by
  rw [subtree]
  simp [List.flatMap_def]

/-- A walk meets the pending nodes in order, each with everything below it. -/
theorem walk_eq_flatMap (d : Document) (pending : List Nat) :
    d.walk pending = pending.flatMap d.subtree := by
  fun_induction walk d pending with
  | case1 => rfl
  | case2 id pending ih => simp [ih, subtree_eq d id]

theorem size_modify (d : Document) (id : Nat) (f : Node → Node) (h) :
    (d.modify id f h).size = d.size := by
  simp [modify, size]

theorem size_push (d : Document) (parent : Option Nat) (kind : NodeKind) (span : Span) :
    (d.push parent kind span).size = d.size + 1 := by
  cases parent <;> simp [push, size]

/-- The new node is found under the number of nodes before. -/
theorem node?_push_self (d : Document) (parent : Option Nat) (kind : NodeKind) (span : Span) :
    (d.push parent kind span).node? d.size = some ⟨kind, parent, #[], span⟩ := by
  cases parent with
  | none => simp [push, size, node?]
  | some p =>
    have h : (d.nodes.modify p fun n => { n with children := n.children.push d.nodes.size }).size =
        d.nodes.size := Array.size_modify
    simp only [push, size, node?, Array.getElem?_push, h, if_pos]

end Document

end TemplateCompiler
