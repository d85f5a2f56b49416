/-
A document as a forest.

The parser pushes the nodes of a text in the order in which they begin, so the document it
builds is a forest laid out from an index on: a node, then its content, then what follows.
`Forest` is that structure with nothing else in it, `Holds` says that a document has it
from an index on, and `Extends` says that one document arises from another by reading it
as the next content of a node.  The tree of a text is then known by induction on a forest,
where the document alone offers only indices.

Spans are left out: they depend on offsets, and nothing here does.
-/
import TemplateCompiler.Markup.Print
import TemplateCompiler.Proofs.Shape

namespace TemplateCompiler

/-- Nodes one after the other, each with its content. -/
inductive Forest
  | nil
  | cons (kind : NodeKind) (content rest : Forest)

namespace Forest

/-- The number of nodes. -/
def size : Forest → Nat
  | nil => 0
  | cons _ content rest => 1 + content.size + rest.size

/-- The indices of the outermost nodes, where the first node of all has the index `start`. -/
def ids (start : Nat) : Forest → List Nat
  | nil => []
  | cons _ content rest => start :: rest.ids (start + 1 + content.size)

/-- The same nodes with other kinds. -/
def map (f : NodeKind → NodeKind) : Forest → Forest
  | nil => nil
  | cons kind content rest => cons (f kind) (content.map f) (rest.map f)

/-- From the index `start` on, the document consists of the forest under `parent`. -/
def Holds (d : Document) (parent : Option Nat) (start : Nat) : Forest → Prop
  | nil => True
  | cons kind content rest =>
    d.shape? start = some ⟨kind, parent, content.ids (start + 1)⟩ ∧
      content.Holds d (some start) (start + 1) ∧ rest.Holds d parent (start + 1 + content.size)

@[simp] theorem size_map (f : NodeKind → NodeKind) (F : Forest) : (F.map f).size = F.size := by
  induction F with
  | nil => rfl
  | cons kind content rest ihc ihr =>
      show 1 + (content.map f).size + (rest.map f).size = 1 + content.size + rest.size
      rw [ihc, ihr]

@[simp] theorem ids_map (f : NodeKind → NodeKind) (F : Forest) :
    ∀ start, (F.map f).ids start = F.ids start := by
  induction F with
  | nil => intro start; rfl
  | cons kind content rest _ ihr =>
      intro start
      show start :: (rest.map f).ids (start + 1 + (content.map f).size) = _
      rw [size_map, ihr]
      rfl

/-- A forest is held as long as none of its own nodes changes. -/
theorem Holds.congr {d d' : Document} {F : Forest} :
    ∀ {parent : Option Nat} {start : Nat}, F.Holds d parent start →
      (∀ id, start ≤ id → id < start + F.size → d'.shape? id = d.shape? id) →
      F.Holds d' parent start := by
  induction F with
  | nil => intro parent start _ _; trivial
  | cons kind content rest ihc ihr =>
      intro parent start h hsame
      obtain ⟨hnode, hcontent, hrest⟩ := h
      unfold size at hsame
      refine ⟨?_, ihc hcontent ?_, ihr hrest ?_⟩
      · rw [hsame start (Nat.le_refl _) (by omega)]
        exact hnode
      · intro id h₁ h₂
        exact hsame id (by omega) (by omega)
      · intro id h₁ h₂
        exact hsame id (by omega) (by omega)

/-- Where one document holds a forest and another holds it with other kinds, the nodes of the
one are those of the other with other kinds. -/
theorem Holds.shape?_map {d d' : Document} {f : NodeKind → NodeKind} {F : Forest} :
    ∀ {parent : Option Nat} {start : Nat}, F.Holds d parent start →
      (F.map f).Holds d' parent start →
      ∀ id, start ≤ id → id < start + F.size →
        d'.shape? id = (d.shape? id).map fun s => { s with kind := f s.kind } := by
  induction F with
  | nil =>
      intro parent start _ _ id h₁ h₂
      simp only [size] at h₂
      omega
  | cons kind content rest ihc ihr =>
      intro parent start h h' id h₁ h₂
      obtain ⟨hnode, hcontent, hrest⟩ := h
      obtain ⟨hnode', hcontent', hrest'⟩ := h'
      unfold size at h₂
      rw [size_map] at hrest'
      rw [ids_map] at hnode'
      by_cases hid : id = start
      · rw [hid, hnode, hnode']
        rfl
      · by_cases hc : id < start + 1 + content.size
        · exact ihc hcontent hcontent' id (by omega) hc
        · exact ihr hrest hrest' id (by omega) (by omega)

end Forest

namespace Document

/-- The document consists of the forest and nothing else. -/
structure Represents (d : Document) (F : Forest) : Prop where
  size : d.size = F.size
  roots : d.roots.toList = F.ids 0
  holds : F.Holds d none 0

/-- `d'` arises from `d` by reading a forest as further content of `parent`. -/
structure Extends (d : Document) (parent : Option Nat) (F : Forest) (d' : Document) : Prop where
  size : d'.size = d.size + F.size
  roots : d'.roots.toList = d.roots.toList ++ if parent = none then F.ids d.size else []
  /-- Nodes that were there stay, and one of them may have new children. -/
  old : ∀ id, id < d.size → d'.shape? id = (d.shape? id).map fun s =>
    if parent = some id then { s with children := s.children ++ F.ids d.size } else s
  new : F.Holds d' parent d.size

namespace Extends

variable {d d₁ d₂ d' : Document} {parent : Option Nat} {F content rest : Forest}

/-- Nothing has been read. -/
theorem nil (d : Document) (parent : Option Nat) : Extends d parent .nil d where
  size := rfl
  roots := by
    split <;> simp [Forest.ids]
  old id _ := by
    cases d.shape? id with
    | none => rfl
    | some s => simp [Forest.ids]
  new := trivial

/-- Spans have no part in it. -/
theorem setStop (h : Extends d parent F d') (id stop : Nat) :
    Extends d parent F (d'.setStop id stop) where
  size := by
    rw [size_setStop]
    exact h.size
  roots := h.roots
  old i hi := by
    rw [shape?_setStop]
    exact h.old i hi
  new := h.new.congr fun i _ _ => shape?_setStop ..

/-- A node is pushed, its content is read, and then what follows it. -/
theorem cons {kind : NodeKind} {span : Span} (hparent : ∀ p, parent = some p → p < d.size)
    (hcontent : Extends (d.push parent kind span) (some d.size) content d₂)
    (hrest : Extends d₂ parent rest d') : Extends d parent (.cons kind content rest) d' := by
  have hsize : d₂.size = d.size + 1 + content.size := by
    rw [hcontent.size, size_push]
  -- The new node is not its own parent, so what follows does not touch it or its content.
  have hframe : ∀ id, d.size ≤ id → id < d₂.size → d'.shape? id = d₂.shape? id := by
    intro id h₁ h₂
    rw [hrest.old id h₂]
    cases d₂.shape? id with
    | none => rfl
    | some s =>
        have hne : parent ≠ some id := fun hp => absurd (hparent id hp) (Nat.not_lt.mpr h₁)
        rw [Option.map_some, if_neg hne]
  have hself : d₂.shape? d.size = some ⟨kind, parent, content.ids (d.size + 1)⟩ := by
    rw [hcontent.old d.size (by rw [size_push]; omega), shape?_push, if_pos rfl, size_push]
    simp
  refine ⟨?_, ?_, ?_, ?_, ?_, ?_⟩
  · rw [hrest.size, hsize]
    show _ = d.size + (1 + content.size + rest.size)
    omega
  · rw [hrest.roots, hcontent.roots, roots_push, hsize]
    cases parent with
    | none => simp [Forest.ids]
    | some p => simp
  · intro id hid
    rw [hrest.old id (by omega), hcontent.old id (by rw [size_push]; omega), shape?_push,
      if_neg (Nat.ne_of_lt hid), hsize]
    have hne : d.size ≠ id := (Nat.ne_of_lt hid).symm
    cases d.shape? id with
    | none => rfl
    | some s =>
        by_cases hp : parent = some id
        · simp [hp, hne, Forest.ids]
        · simp [hp, hne]
  · rw [hframe d.size (Nat.le_refl _) (by omega)]
    exact hself
  · have hnew := hcontent.new
    rw [size_push] at hnew
    refine hnew.congr fun id h₁ h₂ => hframe id (by omega) (by omega)
  · have hnew := hrest.new
    rw [hsize] at hnew
    exact hnew

/-- A node without content is pushed, and then what follows it is read. -/
theorem leaf {kind : NodeKind} {span : Span} (hparent : ∀ p, parent = some p → p < d.size)
    (hrest : Extends (d.push parent kind span) parent rest d') :
    Extends d parent (.cons kind .nil rest) d' :=
  cons hparent (nil _ _) hrest

/-- What is read from the start is all of the document. -/
theorem represents (h : Extends .empty none F d') : Represents d' F where
  size := by
    rw [h.size]
    show 0 + F.size = F.size
    omega
  roots := by
    rw [h.roots]
    rfl
  holds := h.new

end Extends

end Document

end TemplateCompiler
