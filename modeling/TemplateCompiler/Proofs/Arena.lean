/-
The walk meets every node once, and after what stands before it.

A document that is built node by node keeps its links in order: a node stands in exactly
one list, that of its parent or the roots, and every list ascends.  From these three facts
follows what every pass over a tree rests on.  The preorder lists every node, by induction
on the chain of parents.  It lists none twice, because two different nodes of one list
have nothing below them in common: climbing from a common node would lead to both.  And
it lists a node after the nodes before it in its own list, because such a list is a
sublist of the preorder.
-/
import Mathlib.Data.List.Nodup
import Mathlib.Data.List.TakeWhile
import Mathlib.Data.Nat.Init
import TemplateCompiler.Proofs.Attributes
import TemplateCompiler.Proofs.Shape

namespace TemplateCompiler

/-- What a node may hold: the attributes of an element are a map. -/
def NodeKind.Distinct (kind : NodeKind) : Prop :=
  ∀ e, kind.element? = some e → e.attrs.Distinct

namespace Document

variable {d : Document}

/-- A document that arises from pushing nodes under none or under one that is there, from
giving a node another content, and from stretching spans. -/
inductive Built : Document → Prop
  | empty : Built .empty
  | push {d : Document} (h : Built d) (parent : Option Nat) (kind : NodeKind) (span : Span)
      (hparent : ∀ p, parent = some p → p < d.size) (hkind : kind.Distinct) :
      Built (d.push parent kind span)
  | setKind {d : Document} (h : Built d) (id : Nat) (kind : NodeKind) (hkind : kind.Distinct) :
      Built (d.setKind id kind)
  | setStop {d : Document} (h : Built d) (id stop : Nat) : Built (d.setStop id stop)

/-- The links of a document agree with each other. -/
structure Linked (d : Document) : Prop where
  /-- The roots are the nodes without a parent. -/
  mem_roots : ∀ id, id ∈ d.roots.toList ↔ id < d.size ∧ d.parent? id = none
  /-- The children of a node are the nodes whose parent it is. -/
  mem_children : ∀ p id, id ∈ d.children p ↔ d.parent? id = some p
  roots_ascend : d.roots.toList.Pairwise (· < ·)
  children_ascend : ∀ p, (d.children p).Pairwise (· < ·)

/-! ### Building keeps the links in order -/

theorem linked_empty : Linked .empty where
  mem_roots id := by simp [empty, size]
  mem_children p id := by simp [empty, children, parent?, node?]
  roots_ascend := List.Pairwise.nil
  children_ascend p := by simp [empty, children, node?]

theorem parent?_of_size_le {id : Nat} (h : d.size ≤ id) : d.parent? id = none := by
  rw [parent?_eq, shape?_eq_none_iff.mpr h]
  rfl

/-- A node with a parent is there. -/
theorem lt_size_of_parent? {id p : Nat} (h : d.parent? id = some p) : id < d.size := by
  by_contra hc
  rw [parent?_of_size_le (Nat.not_lt.mp hc)] at h
  cases h

theorem Linked.push (h : Linked d) (parent : Option Nat) (kind : NodeKind) (span : Span)
    (hparent : ∀ p, parent = some p → p < d.size) : Linked (d.push parent kind span) where
  mem_roots id := by
    rw [roots_push, List.mem_append, h.mem_roots, size_push, parent?_push]
    by_cases hid : id = d.size
    · subst hid
      cases parent <;> simp
    · rw [if_neg hid]
      have hlast : id ∉ (if parent = none then [d.size] else []) := by
        split <;> simp [hid]
      constructor
      · rintro (⟨hlt, hnone⟩ | hmem)
        · exact ⟨Nat.lt_succ_of_lt hlt, hnone⟩
        · exact absurd hmem hlast
      · rintro ⟨hlt, hnone⟩
        exact Or.inl ⟨by omega, hnone⟩
  mem_children p id := by
    rw [children_push, List.mem_append, h.mem_children, parent?_push]
    by_cases hid : id = d.size
    · subst hid
      rw [if_pos rfl, parent?_of_size_le (Nat.le_refl _)]
      constructor
      · rintro (hmem | hmem)
        · cases hmem
        · split at hmem
          · rename_i hp
            exact hp.1
          · cases hmem
      · intro hp
        rw [if_pos ⟨hp, hparent p hp⟩]
        exact Or.inr (List.mem_singleton_self _)
    · rw [if_neg hid]
      constructor
      · rintro (hmem | hmem)
        · exact hmem
        · split at hmem
          · exact absurd (List.mem_singleton.mp hmem) hid
          · cases hmem
      · exact Or.inl
  roots_ascend := by
    rw [roots_push]
    refine List.pairwise_append.mpr ⟨h.roots_ascend, ?_, ?_⟩
    · split <;> simp
    · intro a ha b hb
      split at hb
      · rw [List.mem_singleton] at hb
        rw [hb]
        exact ((h.mem_roots a).mp ha).1
      · cases hb
  children_ascend p := by
    rw [children_push]
    refine List.pairwise_append.mpr ⟨h.children_ascend p, ?_, ?_⟩
    · split <;> simp
    · intro a ha b hb
      split at hb
      · rw [List.mem_singleton] at hb
        rw [hb]
        exact lt_size_of_parent? ((h.mem_children p a).mp ha)
      · cases hb

/-- A document with the same links is linked. -/
theorem Linked.congr {d' : Document} (h : Linked d) (hroots : d'.roots = d.roots)
    (hsize : d'.size = d.size) (hparent : ∀ id, d'.parent? id = d.parent? id)
    (hchildren : ∀ id, d'.children id = d.children id) : Linked d' where
  mem_roots id := by
    rw [hroots, hsize, hparent]
    exact h.mem_roots id
  mem_children p id := by
    rw [hchildren, hparent]
    exact h.mem_children p id
  roots_ascend := by
    rw [hroots]
    exact h.roots_ascend
  children_ascend p := by
    rw [hchildren]
    exact h.children_ascend p

theorem Linked.of_sameTree {d' : Document} (h : Linked d) (hsame : SameTree d d') : Linked d' :=
  h.congr hsame.roots hsame.size_eq hsame.parent?_eq hsame.children_eq

theorem Linked.setKind (h : Linked d) (id : Nat) (kind : NodeKind) : Linked (d.setKind id kind) :=
  h.congr rfl (size_setKind d id kind) (parent?_setKind d id kind) (children_setKind d id kind)

theorem sameTree_setStop (d : Document) (id stop : Nat) : SameTree d (d.setStop id stop) :=
  ⟨rfl, fun i => by rw [shape?_setStop]⟩

/-- Every document that is built has its links in order. -/
theorem Built.linked (h : Built d) : Linked d := by
  induction h with
  | empty => exact linked_empty
  | push _ parent kind span hparent _ ih => exact ih.push parent kind span hparent
  | setKind _ id kind _ ih => exact ih.setKind id kind
  | setStop _ id stop ih => exact ih.of_sameTree (sameTree_setStop _ id stop)

/-- Every element of a document that is built has distinct attributes. -/
theorem Built.distinct (h : Built d) : ∀ id e, d.element? id = some e → e.attrs.Distinct := by
  induction h with
  | empty => intro id e he; simp [Document.empty, element?, node?] at he
  | @push d _ parent kind span _ hkind ih =>
      intro id e he
      rw [element?_eq, shape?_push] at he
      split at he
      · exact hkind e he
      · refine ih id e ?_
        rw [element?_eq, ← he]
        cases d.shape? id with
        | none => rfl
        | some s =>
            show s.kind.element? = (if parent = some id then _ else s : NodeShape).kind.element?
            split <;> rfl
  | @setKind d _ i kind hkind ih =>
      intro id e he
      rw [element?_eq, shape?_setKind] at he
      split at he
      · cases hs : d.shape? id with
        | none => rw [hs] at he; cases he
        | some s => rw [hs] at he; exact hkind e he
      · exact ih id e (by rw [element?_eq]; exact he)
  | setStop _ i stop ih =>
      intro id e he
      refine ih id e ?_
      rw [element?_eq] at he ⊢
      rwa [shape?_setStop] at he

/-! ### What the preorder lists -/

theorem mem_subtree_self (d : Document) (id : Nat) : id ∈ d.subtree id := by
  rw [subtree_eq]
  exact List.mem_cons_self

theorem mem_subtree_iff {id x : Nat} :
    x ∈ d.subtree id ↔ x = id ∨ ∃ c ∈ d.children id, x ∈ d.subtree c := by
  rw [subtree_eq, List.mem_cons, List.mem_flatMap]

/-- Induction down a tree: a node may be dealt with after its children. -/
theorem subtree_induction {P : Nat → Prop} (step : ∀ id, (∀ c ∈ d.children id, P c) → P id) :
    ∀ id, P id := by
  have hbound : ∀ n id, d.size - id ≤ n → P id := by
    intro n
    induction n with
    | zero =>
        intro id hid
        refine step id fun c hc => ?_
        have := lt_size_of_mem_children hc
        omega
    | succ n ih =>
        intro id hid
        refine step id fun c hc => ih c ?_
        have := lt_of_mem_children hc
        have := lt_size_of_mem_children hc
        omega
  intro id
  exact hbound _ id (Nat.le_refl _)

/-- Nothing below a node comes before it. -/
theorem le_of_mem_subtree {id x : Nat} (h : x ∈ d.subtree id) : id ≤ x := by
  revert h
  induction id using subtree_induction (d := d) with
  | step id ih =>
      intro h
      rcases mem_subtree_iff.mp h with rfl | ⟨c, hc, hx⟩
      · exact Nat.le_refl _
      · exact Nat.le_trans (Nat.le_of_lt (lt_of_mem_children hc)) (ih c hc hx)

/-- What is below a node is below what the node is below. -/
theorem sublist_subtree {id x : Nat} (h : x ∈ d.subtree id) :
    (d.subtree x).Sublist (d.subtree id) := by
  revert h
  induction id using subtree_induction (d := d) with
  | step id ih =>
      intro h
      rcases mem_subtree_iff.mp h with rfl | ⟨c, hc, hx⟩
      · exact List.Sublist.refl _
      · rw [subtree_eq d id]
        refine ((ih c hc hx).trans ?_).cons id
        exact List.sublist_flatten_of_mem (List.mem_map.mpr ⟨c, hc, rfl⟩)

theorem preorder_eq_flatMap (d : Document) : d.preorder = d.roots.toList.flatMap d.subtree := by
  unfold preorder
  exact walk_eq_flatMap d _

/-- With a node, the preorder lists all that is below it. -/
theorem sublist_preorder {id : Nat} (hid : id ∈ d.preorder) :
    (d.subtree id).Sublist d.preorder := by
  rw [preorder_eq_flatMap] at hid ⊢
  obtain ⟨r, hr, hmem⟩ := List.mem_flatMap.mp hid
  exact (sublist_subtree hmem).trans (List.sublist_flatten_of_mem (List.mem_map.mpr ⟨r, hr, rfl⟩))

/-- A list of siblings is a sublist of what stands at or below them. -/
theorem sublist_flatMap_subtree (d : Document) (ids : List Nat) :
    ids.Sublist (ids.flatMap d.subtree) := by
  induction ids with
  | nil => exact List.Sublist.slnil
  | cons id rest ih =>
      rw [List.flatMap_cons, subtree_eq, List.cons_append]
      exact (ih.trans (List.sublist_append_right _ _)).cons_cons id

/-- In a list without repetitions, what stands before an element in a sublist stands before it in
the list. -/
theorem mem_before_of_sublist {before after : List Nat} {x id : Nat}
    (hnodup : (before ++ id :: after).Nodup) (hpair : [x, id].Sublist (before ++ id :: after)) :
    x ∈ before := by
  obtain ⟨-, hafter, -⟩ := List.nodup_append'.mp hnodup
  by_contra hnot
  -- Otherwise both would stand at or after `id`, where `id` stands first and only once.
  have hsub : [x, id].Sublist (id :: after) := by
    obtain ⟨l₁, l₂, heq, h₁, h₂⟩ := List.sublist_append_iff.mp hpair
    cases l₁ with
    | nil =>
        rw [List.nil_append] at heq
        rw [heq]
        exact h₂
    | cons a l₁ =>
        rw [List.cons_append, List.cons.injEq] at heq
        exact absurd (h₁.subset (by rw [heq.1]; simp)) hnot
  rw [List.nodup_cons] at hafter
  cases hsub with
  | cons _ hsub => exact hafter.1 (hsub.subset (by simp))
  | cons_cons _ hsub => exact hafter.1 (hsub.subset (by simp))

/-- The nearest element before a node is an element. -/
theorem isElement_of_previousElement? {id p : Nat} (hp : d.previousElement? id = some p) :
    d.isElement p = true := by
  unfold previousElement? at hp
  simp only at hp
  split at hp
  · exact List.find?_some hp
  · cases hp

namespace Linked

variable (h : Linked d)

include h

/-- Climbing from a node below another one leads to that one. -/
theorem parent?_mem_subtree {id x : Nat} (hx : x ∈ d.subtree id) (hne : x ≠ id) :
    ∃ p, d.parent? x = some p ∧ p ∈ d.subtree id := by
  revert hx hne
  induction id using subtree_induction (d := d) with
  | step id ih =>
      intro hx hne
      obtain ⟨c, hc, hmem⟩ := (mem_subtree_iff.mp hx).resolve_left hne
      by_cases hxc : x = c
      · exact ⟨id, by rw [hxc]; exact (h.mem_children id c).mp hc, mem_subtree_self d id⟩
      · obtain ⟨p, hp, hpc⟩ := ih c hc hmem hxc
        exact ⟨p, hp, mem_subtree_iff.mpr (Or.inr ⟨c, hc, hpc⟩)⟩

/-- Two nodes of one list that have a node below them in common are one node. -/
theorem eq_of_mem_subtree {r r' x : Nat} (hparent : d.parent? r = d.parent? r')
    (hr : x ∈ d.subtree r) (hr' : x ∈ d.subtree r') : r = r' := by
  induction x using Nat.strong_induction_on with
  | _ x ih =>
      by_cases hxr : x = r
      · by_cases hxr' : x = r'
        · rw [← hxr, hxr']
        · -- The parent of `r` would be below `r'`, and is the parent of `r'`.
          obtain ⟨p, hp, hmem⟩ := h.parent?_mem_subtree hr' hxr'
          rw [hxr, hparent] at hp
          have hle := le_of_mem_subtree hmem
          have hlt := lt_of_mem_children ((h.mem_children p r').mpr hp)
          omega
      · obtain ⟨p, hp, hmem⟩ := h.parent?_mem_subtree hr hxr
        have hlt := lt_of_mem_children ((h.mem_children p x).mpr hp)
        by_cases hxr' : x = r'
        · rw [hxr', ← hparent] at hp
          have hle := le_of_mem_subtree hmem
          have hlt' := lt_of_mem_children ((h.mem_children p r).mpr hp)
          omega
        · obtain ⟨p', hp', hmem'⟩ := h.parent?_mem_subtree hr' hxr'
          rw [hp] at hp'
          cases hp'
          exact ih p hlt hmem hmem'

/-- Siblings and what is below them are listed once, if each is. -/
theorem nodup_flatMap_subtree {ids : List Nat} {parent : Option Nat} (hids : ids.Pairwise (· < ·))
    (hparent : ∀ id ∈ ids, d.parent? id = parent) (hsub : ∀ id ∈ ids, (d.subtree id).Nodup) :
    (ids.flatMap d.subtree).Nodup := by
  rw [List.nodup_flatMap]
  refine ⟨hsub, ?_⟩
  refine hids.imp_of_mem fun {r r'} hr hr' hlt => ?_
  intro x hx hx'
  have heq := h.eq_of_mem_subtree ((hparent r hr).trans (hparent r' hr').symm) hx hx'
  omega

theorem nodup_subtree (id : Nat) : (d.subtree id).Nodup := by
  induction id using subtree_induction (d := d) with
  | step id ih =>
      rw [subtree_eq, List.nodup_cons]
      constructor
      · intro hmem
        obtain ⟨c, hc, hx⟩ := List.mem_flatMap.mp hmem
        have hle := le_of_mem_subtree hx
        have hlt := lt_of_mem_children hc
        omega
      · exact h.nodup_flatMap_subtree (h.children_ascend id)
          (fun c hc => (h.mem_children id c).mp hc) ih

/-- The preorder lists no node twice. -/
theorem nodup_preorder : d.preorder.Nodup := by
  rw [preorder_eq_flatMap]
  exact h.nodup_flatMap_subtree h.roots_ascend (fun id hid => ((h.mem_roots id).mp hid).2)
    fun id _ => h.nodup_subtree id

/-- The preorder lists every node. -/
theorem mem_preorder {id : Nat} (hid : id < d.size) : id ∈ d.preorder := by
  induction id using Nat.strong_induction_on with
  | _ id ih =>
      cases hp : d.parent? id with
      | none =>
          rw [preorder_eq_flatMap]
          exact List.mem_flatMap.mpr ⟨id, (h.mem_roots id).mpr ⟨hid, hp⟩, mem_subtree_self d id⟩
      | some p =>
          have hc := (h.mem_children p id).mpr hp
          have hmem := ih p (lt_of_mem_children hc) (lt_size_of_mem_children hc)
          refine (sublist_preorder hmem).subset ?_
          exact mem_subtree_iff.mpr (Or.inr ⟨id, hc, mem_subtree_self d id⟩)

theorem mem_preorder_iff {id : Nat} : id ∈ d.preorder ↔ id < d.size := by
  constructor
  · intro hid
    by_cases hp : d.parent? id = none
    · rw [preorder_eq_flatMap] at hid
      obtain ⟨r, hr, hmem⟩ := List.mem_flatMap.mp hid
      by_cases hidr : id = r
      · exact hidr ▸ ((h.mem_roots r).mp hr).1
      · obtain ⟨p, hp', -⟩ := h.parent?_mem_subtree hmem hidr
        rw [hp] at hp'
        cases hp'
    · obtain ⟨p, hp'⟩ := Option.ne_none_iff_exists'.mp hp
      exact lt_size_of_parent? hp'
  · exact h.mem_preorder

/-! ### Siblings in the preorder -/

/-- The list that a node stands in is a sublist of the preorder. -/
theorem sublist_siblings (id : Nat) : (d.siblings id).Sublist d.preorder := by
  unfold siblings
  cases hp : d.parent? id with
  | none =>
      rw [preorder_eq_flatMap]
      exact sublist_flatMap_subtree d _
  | some p =>
      have hc := (h.mem_children p id).mpr hp
      refine List.Sublist.trans ?_ (sublist_preorder (h.mem_preorder (lt_size_of_mem_children hc)))
      rw [subtree_eq]
      exact (sublist_flatMap_subtree d _).cons p

/-- The nearest element before a node stands before it in the preorder. -/
theorem previousElement?_mem {id p : Nat} (hp : d.previousElement? id = some p)
    {before after : List Nat} (hsplit : d.preorder = before ++ id :: after) : p ∈ before := by
  unfold previousElement? at hp
  simp only at hp
  split at hp
  · rename_i hid
    have hpmem : p ∈ (d.siblings id).takeWhile (· != id) := by
      have := List.mem_of_find?_eq_some hp
      rwa [List.mem_reverse] at this
    have hidmem : id ∈ (d.siblings id).dropWhile (· != id) := by
      have hmem : id ∈ (d.siblings id).takeWhile (· != id)
          ++ (d.siblings id).dropWhile (· != id) := by
        rw [List.takeWhile_append_dropWhile]
        simpa using hid
      rcases List.mem_append.mp hmem with hmem | hmem
      · have := List.mem_takeWhile_imp hmem
        rw [bne_iff_ne] at this
        exact absurd rfl this
      · exact hmem
    have hpair : [p, id].Sublist d.preorder := by
      refine List.Sublist.trans ?_ (h.sublist_siblings id)
      rw [← List.takeWhile_append_dropWhile (p := (· != id)) (l := d.siblings id)]
      exact (List.singleton_sublist.mpr hpmem).append (List.singleton_sublist.mpr hidmem)
    have hnodup := h.nodup_preorder
    rw [hsplit] at hpair hnodup
    exact mem_before_of_sublist hnodup hpair
  · cases hp

end Linked

end Document

end TemplateCompiler
