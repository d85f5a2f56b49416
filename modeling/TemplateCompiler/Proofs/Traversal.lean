/-
Documents that change, and the order in which they are walked.

A document is made by pushing nodes, each under none or under one that is there, and it is
changed by giving nodes another content, by stretching spans and by passes.  None of these takes a
node away or moves one, and a node that is pushed is younger than all others.  So whatever is done,
and in whatever order, the links of the document agree with each other; that is the invariant
`Linked`, which every change keeps.

The rest follows from it.  The lists of siblings hold every node once.  The walk with a stack lists
one node a step and is over when all are listed, so it does not need the order of indices to end.
What it lists is the recursive preorder, and since a node, the subtree of a sibling before it and
its parent come in this order in the listing of the parent's subtree, they do so in the whole.  And
the nearest element before a node is the youngest of the older ones in its list, because lists
ascend.
-/
import Mathlib.Logic.Function.Iterate
import Mathlib.Logic.Relation
import TemplateCompiler.Proofs.Lockstep

namespace TemplateCompiler

/-! ### Ascending lists -/

/-- In an ascending list the smaller elements are those before. -/
theorem takeWhile_ne_eq_filter_lt {l : List Nat} {x : Nat} (h : l.Pairwise (· < ·)) (hx : x ∈ l) :
    l.takeWhile (· != x) = l.filter (· < x) := by
  induction l with
  | nil => cases hx
  | cons y l ih =>
      obtain ⟨hy, hl⟩ := List.pairwise_cons.mp h
      by_cases hyx : y = x
      · have hnone : l.filter (· < x) = [] := by
          rw [List.filter_eq_nil_iff]
          intro z hz
          have := hy z hz
          simp only [decide_eq_true_eq]
          omega
        subst hyx
        rw [List.takeWhile_cons_of_neg (by simp), List.filter_cons_of_neg (by simp), hnone]
      · have hmem : x ∈ l := (List.mem_cons.mp hx).resolve_left fun heq => hyx heq.symm
        rw [List.takeWhile_cons_of_pos (by simpa using hyx),
          List.filter_cons_of_pos (by simpa using hy x hmem), ih hl hmem]

/-- The last element of an ascending list is the largest. -/
theorem getLast?_eq_max? {l : List Nat} (h : l.Pairwise (· < ·)) : l.getLast? = l.max? := by
  rcases List.eq_nil_or_concat l with rfl | ⟨front, x, rfl⟩
  · rfl
  · rw [List.concat_eq_append] at h ⊢
    obtain ⟨-, -, hlast⟩ := List.pairwise_append.mp h
    rw [List.getLast?_concat, eq_comm, List.max?_eq_some_iff]
    refine ⟨by simp, fun y hy => ?_⟩
    rcases List.mem_append.mp hy with hy | hy
    · exact Nat.le_of_lt (hlast y hy x (List.mem_singleton_self x))
    · exact Nat.le_of_eq (List.mem_singleton.mp hy)

/-! ### Changes -/

/-- A change of a document. -/
inductive Change
  /-- A new node, as the last child of `parent` or as the last root. -/
  | push (parent : Option Nat) (kind : NodeKind) (span : Span)
  /-- Another content of a node. -/
  | setKind (id : Nat) (kind : NodeKind)
  /-- Another end of a node's span. -/
  | setStop (id stop : Nat)
  /-- A pass over the whole document, which may stop at an error. -/
  | adapt (pass : Pass) (setting : Setting)

namespace Change

variable {d d' : Document}

/-- The document after a change.  A node that a change is about has to be there. -/
def perform? (d : Document) : Change → Option Document
  | push none kind span => some (d.push none kind span)
  | push (some parent) kind span =>
    if parent < d.size then some (d.push (some parent) kind span) else none
  | setKind id kind => if id < d.size then some (d.setKind id kind) else none
  | setStop id stop => if id < d.size then some (d.setStop id stop) else none
  | adapt pass setting => some (pass.run setting d).document

/-- The document after changes, one after the other. -/
def run? (changes : List Change) (d : Document) : Option Document := changes.foldlM perform? d

/-- Every change keeps the links in order. -/
theorem linked (change : Change) (h : d.Linked) (hd : perform? d change = some d') : d'.Linked := by
  unfold perform? at hd
  cases change with
  | push parent kind span =>
      cases parent with
      | none =>
          cases hd
          exact h.push none kind span fun p hp => nomatch hp
      | some parent =>
          obtain ⟨hparent, heq⟩ := Option.ite_none_right_eq_some.mp hd
          cases heq
          refine h.push (some parent) kind span fun p hp => ?_
          cases hp
          exact hparent
  | setKind id kind =>
      obtain ⟨-, heq⟩ := Option.ite_none_right_eq_some.mp hd
      cases heq
      exact h.setKind id kind
  | setStop id stop =>
      obtain ⟨-, heq⟩ := Option.ite_none_right_eq_some.mp hd
      cases heq
      exact h.of_sameTree (Document.sameTree_setStop d id stop)
  | adapt pass setting =>
      cases hd
      exact pass.linked_run setting h

theorem linked_of_run? {changes : List Change} (h : d.Linked) (hd : run? changes d = some d') :
    d'.Linked := by
  induction changes generalizing d with
  | nil =>
      cases hd
      exact h
  | cons change changes ih =>
      obtain ⟨d₁, hfirst, hrest⟩ := Option.bind_eq_some_iff.mp hd
      exact ih (change.linked h hfirst) hrest

end Change

namespace Document

variable {d : Document}

/-! ### The walk, one node a step -/

/-- One step of the walk, from the stack of pending nodes and those listed: the node on the top is
listed, and its children take its place. -/
def visit (d : Document) : List Nat × List Nat → List Nat × List Nat
  | ([], listed) => ([], listed)
  | (id :: pending, listed) => (d.children id ++ pending, listed ++ [id])

/-- The walk is over after as many steps as it lists nodes. -/
theorem iterate_visit (d : Document) (pending listed : List Nat) :
    d.visit^[(d.walk pending).length] (pending, listed) = ([], listed ++ d.walk pending) := by
  fun_induction walk d pending generalizing listed with
  | case1 => rw [List.append_nil]; rfl
  | case2 id pending ih =>
      rw [List.length_cons, Function.iterate_succ_apply]
      show d.visit^[_] (d.children id ++ pending, listed ++ [id]) = _
      rw [ih, List.append_assoc]
      rfl

/-! ### Nodes below others -/

/-- `x` is `id`, or a child of a node below it. -/
def Below (d : Document) (x id : Nat) : Prop :=
  Relation.ReflTransGen (fun child parent => d.parent? child = some parent) x id

namespace Linked

variable (h : d.Linked)

include h

theorem mem_subtree_iff_below {id x : Nat} : x ∈ d.subtree id ↔ d.Below x id := by
  constructor
  · induction id using subtree_induction (d := d) with
    | step id ih =>
        intro hx
        rcases mem_subtree_iff.mp hx with rfl | ⟨c, hc, hmem⟩
        · exact .refl
        · exact (ih c hc hmem).tail ((h.mem_children id c).mp hc)
  · intro hbelow
    induction hbelow with
    | refl => exact mem_subtree_self d x
    | tail _ hparent ih =>
        exact mem_subtree_iff.mpr (.inr ⟨_, (h.mem_children _ _).mpr hparent, ih⟩)

/-! ### Lists of siblings -/

theorem mem_siblings {id : Nat} (hid : id < d.size) : id ∈ d.siblings id := by
  unfold siblings
  cases hp : d.parent? id with
  | none => exact (h.mem_roots id).mpr ⟨hid, hp⟩
  | some p => exact (h.mem_children p id).mpr hp

theorem siblings_ascend (id : Nat) : (d.siblings id).Pairwise (· < ·) := by
  unfold siblings
  cases d.parent? id with
  | none => exact h.roots_ascend
  | some p => exact h.children_ascend p

theorem parent?_lt {id p : Nat} (hp : d.parent? id = some p) : p < id :=
  lt_of_mem_children ((h.mem_children p id).mpr hp)

/-- All lists of siblings together hold every node once. -/
theorem perm_siblings :
    (d.roots.toList ++ (List.range d.size).flatMap d.children).Perm (List.range d.size) := by
  have hchildren : ((List.range d.size).flatMap d.children).Nodup := by
    rw [List.nodup_flatMap]
    refine ⟨fun p _ => (h.children_ascend p).imp Nat.ne_of_lt, ?_⟩
    refine List.pairwise_lt_range.imp fun {p q} hpq c hp hq => ?_
    -- A node with two parents would have two answers to who its parent is.
    have heq := ((h.mem_children p c).mp hp).symm.trans ((h.mem_children q c).mp hq)
    exact Nat.ne_of_lt hpq (Option.some.inj heq)
  have hnodup : (d.roots.toList ++ (List.range d.size).flatMap d.children).Nodup := by
    refine List.nodup_append'.mpr ⟨h.roots_ascend.imp Nat.ne_of_lt, hchildren, ?_⟩
    intro c hroot hchild
    obtain ⟨p, -, hc⟩ := List.mem_flatMap.mp hchild
    rw [h.mem_children, ((h.mem_roots c).mp hroot).2] at hc
    cases hc
  refine (List.perm_ext_iff_of_nodup hnodup List.nodup_range).mpr fun id => ?_
  rw [List.mem_append, List.mem_flatMap, List.mem_range, h.mem_roots]
  constructor
  · rintro (⟨hid, -⟩ | ⟨p, -, hc⟩)
    · exact hid
    · exact lt_size_of_parent? ((h.mem_children p id).mp hc)
  · intro hid
    cases hp : d.parent? id with
    | none => exact .inl ⟨hid, rfl⟩
    | some p =>
        have hc := (h.mem_children p id).mpr hp
        exact .inr ⟨p, List.mem_range.mpr (lt_size_of_mem_children hc), hc⟩

/-! ### The preorder -/

theorem perm_preorder : d.preorder.Perm (List.range d.size) := by
  refine (List.perm_ext_iff_of_nodup h.nodup_preorder List.nodup_range).mpr fun id => ?_
  rw [h.mem_preorder_iff, List.mem_range]

/-- The walk lists one node a step and is over when all are listed. -/
theorem iterate_visit_roots : d.visit^[d.size] (d.roots.toList, []) = ([], d.preorder) := by
  have hlength : (d.walk d.roots.toList).length = d.size := by
    rw [← List.length_range (n := d.size)]
    exact h.perm_preorder.length_eq
  rw [← hlength]
  exact d.iterate_visit d.roots.toList []

/-- A node with a parent is listed after it. -/
theorem parent?_mem {before after : List Nat} {id p : Nat}
    (hsplit : d.preorder = before ++ id :: after) (hp : d.parent? id = some p) : p ∈ before := by
  have hc := (h.mem_children p id).mpr hp
  have hpair : [p, id].Sublist d.preorder := by
    refine List.Sublist.trans ?_ (sublist_preorder (h.mem_preorder (lt_size_of_mem_children hc)))
    rw [subtree_eq, List.cons_sublist_cons, List.singleton_sublist]
    exact List.mem_flatMap.mpr ⟨id, hc, mem_subtree_self d id⟩
  have hnodup := h.nodup_preorder
  rw [hsplit] at hpair hnodup
  exact mem_before_of_sublist hnodup hpair

/-- The list that a node stands in is listed with all that is below it, in its order. -/
theorem sublist_flatMap_siblings (id : Nat) :
    ((d.siblings id).flatMap d.subtree).Sublist d.preorder := by
  unfold siblings
  cases hp : d.parent? id with
  | none =>
      rw [preorder_eq_flatMap]
  | some p =>
      have hc := (h.mem_children p id).mpr hp
      refine List.Sublist.trans ?_ (sublist_preorder (h.mem_preorder (lt_size_of_mem_children hc)))
      rw [subtree_eq]
      exact List.sublist_cons_self _ _

/-- A node is listed after its siblings before it and all that is below them. -/
theorem below_mem {before after front back : List Nat} {id s x : Nat}
    (hsplit : d.preorder = before ++ id :: after) (hsiblings : d.siblings id = front ++ id :: back)
    (hs : s ∈ front) (hx : d.Below x s) : x ∈ before := by
  have hmem : x ∈ front.flatMap d.subtree :=
    List.mem_flatMap.mpr ⟨s, hs, h.mem_subtree_iff_below.mpr hx⟩
  have hpair : [x, id].Sublist d.preorder := by
    refine List.Sublist.trans ?_ (h.sublist_flatMap_siblings id)
    rw [hsiblings, List.flatMap_append, List.flatMap_cons, subtree_eq]
    exact (List.singleton_sublist.mpr hmem).append (List.singleton_sublist.mpr (by simp))
  have hnodup := h.nodup_preorder
  rw [hsplit] at hpair hnodup
  exact mem_before_of_sublist hnodup hpair

/-- The nearest element before a node is the youngest of the older elements in its list. -/
theorem previousElement?_eq_max? {id : Nat} (hid : id < d.size) :
    d.previousElement? id
      = ((d.siblings id).filter fun s => decide (s < id) && d.isElement s).max? := by
  have hmem := h.mem_siblings hid
  have hascend : ((d.siblings id).filter fun s => decide (s < id) && d.isElement s).Pairwise
      (· < ·) := (h.siblings_ascend id).filter _
  have hfilter : (d.siblings id).filter (fun s => decide (s < id) && d.isElement s)
      = ((d.siblings id).takeWhile (· != id)).filter d.isElement := by
    rw [takeWhile_ne_eq_filter_lt (h.siblings_ascend id) hmem, List.filter_filter]
    simp only [Bool.and_comm]
  rw [← getLast?_eq_max? hascend, hfilter]
  unfold previousElement?
  dsimp only
  rw [if_pos (by simpa using hmem), ← List.head?_filter, List.filter_reverse, List.head?_reverse]

end Linked

/-! ### Every document that is reached -/

/-- The nodes of a document stand in order, and the walk goes through them in order. -/
structure Ordered (d : Document) : Prop where
  /-- The lists of siblings together hold every node once. -/
  lists : (d.roots.toList ++ (List.range d.size).flatMap d.children).Perm (List.range d.size)
  /-- A node stands among the children of its parent, or among the roots if it has none. -/
  place : ∀ id < d.size, id ∈ match d.parent? id with
    | some p => d.children p
    | none => d.roots.toList
  older : ∀ id p, d.parent? id = some p → p < id
  roots_ascend : d.roots.toList.Pairwise (· < ·)
  children_ascend : ∀ p, (d.children p).Pairwise (· < ·)
  /-- The walk with a stack is over when it has listed as many nodes as there are. -/
  ends : d.visit^[d.size] (d.roots.toList, []) = ([], d.preorder)
  once : d.preorder.Perm (List.range d.size)
  /-- What is listed is the preorder by recursion on the tree. -/
  recursive : d.preorder = d.roots.toList.flatMap d.subtree ∧
    ∀ id, d.subtree id = id :: (d.children id).flatMap d.subtree
  /-- A node is listed after its parent. -/
  parent : ∀ before id after p, d.preorder = before ++ id :: after → d.parent? id = some p →
    p ∈ before
  /-- A node is listed after its siblings before it, and after all that is below these. -/
  siblings : ∀ before id after front back, d.preorder = before ++ id :: after →
    d.siblings id = front ++ id :: back → ∀ s ∈ front, ∀ x, d.Below x s → x ∈ before
  previous : ∀ id < d.size, d.previousElement? id
    = ((d.siblings id).filter fun s => decide (s < id) && d.isElement s).max?

/-- However a document is made by pushing nodes and changed by setting contents, stretching spans
and running passes, its nodes stand in order and are walked in order. -/
theorem ordered_of_run? {changes : List Change} (h : Change.run? changes .empty = some d) :
    d.Ordered where
  lists := (Change.linked_of_run? linked_empty h).perm_siblings
  place id hid := by
    have hmem := (Change.linked_of_run? linked_empty h).mem_siblings hid
    unfold Document.siblings at hmem
    exact hmem
  older _ _ hp := (Change.linked_of_run? linked_empty h).parent?_lt hp
  roots_ascend := (Change.linked_of_run? linked_empty h).roots_ascend
  children_ascend := (Change.linked_of_run? linked_empty h).children_ascend
  ends := (Change.linked_of_run? linked_empty h).iterate_visit_roots
  once := (Change.linked_of_run? linked_empty h).perm_preorder
  recursive := ⟨d.preorder_eq_flatMap, d.subtree_eq⟩
  parent _ _ _ _ hsplit hp := (Change.linked_of_run? linked_empty h).parent?_mem hsplit hp
  siblings _ _ _ _ _ hsplit hsiblings _ hs _ hx :=
    (Change.linked_of_run? linked_empty h).below_mem hsplit hsiblings hs hx
  previous _ hid := (Change.linked_of_run? linked_empty h).previousElement?_eq_max? hid

/-- A node that is pushed below an older one stands before a younger root, and elements are told from
texts when the nearest one before a node is looked for. -/
theorem ordered_of_run?_nested :
    let view : NodeKind := .element ⟨"view", ⟨[("v-if", some "a")]⟩, .normal⟩
    let changes : List Change := [.push none view .detached, .push none (.text "b") .detached,
      .push (some 0) view .detached, .push none view .detached, .push (some 0) view .detached,
      .setKind 2 (.comment "c"), .adapt .conditional (.forTarget .wx none)]
    ∃ d ∈ Change.run? changes .empty, d.preorder = [0, 2, 4, 1, 3] ∧
      d.previousElement? 4 = none ∧ d.previousElement? 3 = some 0 ∧ d.Ordered := by
  intro view changes
  have hrun : ∃ d ∈ Change.run? changes .empty, d.preorder = [0, 2, 4, 1, 3] ∧
      d.previousElement? 4 = none ∧ d.previousElement? 3 = some 0 := by
    decide +kernel
  obtain ⟨d, hd, hpreorder, hnone, hsome⟩ := hrun
  exact ⟨d, hd, hpreorder, hnone, hsome, ordered_of_run? (Option.mem_def.mp hd)⟩

end Document

end TemplateCompiler
